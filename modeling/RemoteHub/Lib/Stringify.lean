import Mathlib.Algebra.GroupWithZero.Nat
import Mathlib.Data.List.Basic

/-!
# `JSON.stringify` and the bytes of its texts

A JavaScript string is the list of its UTF-16 code units. A half of a surrogate pair that stands alone is
escaped. A number is kept as its text. `readString` reads a string back, so that a text determines its
value (`stringify_inj`); `utf8Length` is how many bytes `TextEncoder` makes of a string, and `wide_stringify`
how many more that are than code units, text by text.
-/

namespace Stringify

abbrev Units := List UInt16

def ascii (text : String) : Units := text.toList.map fun c => .ofNat c.toNat

def isHigh (u : UInt16) : Bool := 0xd800 ≤ u && u < 0xdc00

def isLow (u : UInt16) : Bool := 0xdc00 ≤ u && u < 0xe000

/-! ## Strings -/

def hexDigit (n : Nat) : UInt16 := if n < 10 then .ofNat (48 + n) else .ofNat (87 + n)

/-- A code unit as `\u` and four digits. -/
def unicodeEscape (u : UInt16) : Units :=
  [0x5c, 0x75, hexDigit (u.toNat / 4096), hexDigit (u.toNat / 256 % 16),
    hexDigit (u.toNat / 16 % 16), hexDigit (u.toNat % 16)]

/-- How a code unit that is not one of a pair stands in a JSON string. -/
def escape (u : UInt16) : Units :=
  if u = 0x22 ∨ u = 0x5c then [0x5c, u]
  else if u = 0x08 then [0x5c, 0x62]
  else if u = 0x0c then [0x5c, 0x66]
  else if u = 0x0a then [0x5c, 0x6e]
  else if u = 0x0d then [0x5c, 0x72]
  else if u = 0x09 then [0x5c, 0x74]
  else if u < 0x20 ∨ isHigh u ∨ isLow u then unicodeEscape u
  else [u]

def escapes : Units → Units
  | [] => []
  | [u] => escape u
  | u :: v :: s => if isHigh u ∧ isLow v then u :: v :: escapes s else escape u ++ escapes (v :: s)

def quote (s : Units) : Units := 0x22 :: escapes s ++ [0x22]

/-- What needs no escape. -/
theorem escapes_of_plain {s : Units} (h : ∀ u ∈ s, escape u = [u] ∧ isHigh u = false) :
    escapes s = s := by
  induction s using escapes.induct with
  | case1 => rfl
  | case2 u => exact (h u List.mem_cons_self).1
  | case3 u v s hpair ih => simp [(h u List.mem_cons_self).2] at hpair
  | case4 u v s hpair ih =>
    rw [escapes, if_neg hpair, (h u List.mem_cons_self).1,
      ih fun w hw => h w (List.mem_cons_of_mem _ hw)]
    rfl

/-- What an escape of two characters stands for. -/
def unescape (u : UInt16) : UInt16 :=
  if u = 0x62 then 0x08
  else if u = 0x66 then 0x0c
  else if u = 0x6e then 0x0a
  else if u = 0x72 then 0x0d
  else if u = 0x74 then 0x09
  else u

def hexValue (u : UInt16) : Nat := if u < 0x3a then u.toNat - 48 else u.toNat - 87

/-- A JSON string from after its opening quote: what it says, and what comes after it. -/
def readString : Units → Option (Units × Units)
  | 0x22 :: r => some ([], r)
  | 0x5c :: 0x75 :: a :: b :: c :: d :: r =>
    (readString r).map fun (s, r) =>
      (.ofNat (4096 * hexValue a + 256 * hexValue b + 16 * hexValue c + hexValue d) :: s, r)
  | 0x5c :: u :: r => (readString r).map fun (s, r) => (unescape u :: s, r)
  | u :: r => (readString r).map fun (s, r) => (u :: s, r)
  | [] => none

theorem hexValue_hexDigit {n : Nat} (h : n < 16) : hexValue (hexDigit n) = n := by
  have hall : ∀ n : Fin 16, hexValue (hexDigit n) = n := by decide
  exact hall ⟨n, h⟩

theorem readString_unicodeEscape (u : UInt16) (r : Units) :
    readString (unicodeEscape u ++ r) = (readString r).map fun q => (u :: q.1, q.2) := by
  have hu := u.toNat_lt
  have hsum : 4096 * (u.toNat / 4096) + 256 * (u.toNat / 256 % 16) + 16 * (u.toNat / 16 % 16) +
      u.toNat % 16 = u.toNat := by omega
  simp only [unicodeEscape, List.cons_append, List.nil_append, readString]
  rw [hexValue_hexDigit (by omega), hexValue_hexDigit (by omega), hexValue_hexDigit (by omega),
    hexValue_hexDigit (by omega), hsum, UInt16.ofNat_toNat]

theorem readString_plain {u : UInt16} (hquote : u ≠ 0x22) (hback : u ≠ 0x5c) (r : Units) :
    readString (u :: r) = (readString r).map fun q => (u :: q.1, q.2) := by
  rw [readString.eq_def]
  split <;> simp_all

theorem readString_escaped {u : UInt16} (h : u ≠ 0x75) (r : Units) :
    readString (0x5c :: u :: r) = (readString r).map fun q => (unescape u :: q.1, q.2) := by
  rw [readString.eq_def]
  split
  case h_1 heq => simp at heq
  case h_2 heq => simp_all
  case h_3 heq =>
    cases heq
    rfl
  case h_4 hescape heq =>
    cases heq
    exact (hescape u r rfl rfl).elim
  case h_5 heq => cases heq

theorem readString_escape (u : UInt16) (r : Units) :
    readString (escape u ++ r) = (readString r).map fun q => (u :: q.1, q.2) := by
  unfold escape
  split_ifs with hsame hb hf hn hr ht hcontrol
  · rcases hsame with rfl | rfl <;> exact readString_escaped (by decide) r
  · rw [hb]
    exact readString_escaped (by decide) r
  · rw [hf]
    exact readString_escaped (by decide) r
  · rw [hn]
    exact readString_escaped (by decide) r
  · rw [hr]
    exact readString_escaped (by decide) r
  · rw [ht]
    exact readString_escaped (by decide) r
  · exact readString_unicodeEscape u r
  · exact readString_plain (fun h => hsame (.inl h)) (fun h => hsame (.inr h)) r

theorem ne_of_isHigh {u : UInt16} (h : isHigh u ∨ isLow u) : u ≠ 0x22 ∧ u ≠ 0x5c := by
  constructor
  all_goals
    rintro rfl
    revert h
    decide

theorem readString_escapes (s r : Units) : readString (escapes s ++ 0x22 :: r) = some (s, r) := by
  induction s using escapes.induct with
  | case1 => rfl
  | case2 u =>
    rw [escapes, readString_escape]
    rfl
  | case3 u v s h ih =>
    obtain ⟨huQuote, huBack⟩ := ne_of_isHigh (.inl h.1)
    obtain ⟨hvQuote, hvBack⟩ := ne_of_isHigh (.inr h.2)
    rw [escapes, if_pos h, List.cons_append, List.cons_append, readString_plain huQuote huBack,
      readString_plain hvQuote hvBack, ih]
    rfl
  | case4 u v s h ih =>
    rw [escapes, if_neg h, List.append_assoc, readString_escape, ih]
    rfl

theorem quote_append_inj {s t r r' : Units} (h : quote s ++ r = quote t ++ r') :
    s = t ∧ r = r' := by
  have hread (s r : Units) : readString ((quote s ++ r).drop 1) = some (s, r) := by
    simp only [quote, List.cons_append, List.append_assoc, List.drop_succ_cons, List.drop_zero]
    exact readString_escapes s r
  have heq := hread s r
  rw [h, hread t r', Option.some.injEq, Prod.mk.injEq] at heq
  exact ⟨heq.1.symm, heq.2.symm⟩

/-! ## Values -/

/-- What numbers are written with. -/
def isNumeric (u : UInt16) : Bool :=
  (0x30 ≤ u && u ≤ 0x39) || u = 0x2b || u = 0x2d || u = 0x2e || u = 0x65

/-- A number, as it is written. -/
structure Number where
  text : Units
  nonempty : text ≠ []
  numeric : ∀ u ∈ text, isNumeric u

inductive Value
  | null
  | bool (b : Bool)
  | number (n : Number)
  | string (s : Units)
  | array (items : List Value)
  | object (fields : List (Units × Value))

mutual

def stringify : Value → Units
  | .null => ascii "null"
  | .bool true => ascii "true"
  | .bool false => ascii "false"
  | .number n => n.text
  | .string s => quote s
  | .array [] => ascii "[]"
  | .array (v :: vs) => 0x5b :: stringify v ++ moreItems vs
  | .object [] => ascii "\x7b\x7d"
  | .object (f :: fs) => 0x7b :: quote f.1 ++ 0x3a :: stringify f.2 ++ moreFields fs

/-- The rest of an array. -/
def moreItems : List Value → Units
  | [] => [0x5d]
  | v :: vs => 0x2c :: stringify v ++ moreItems vs

/-- The rest of an object. -/
def moreFields : List (Units × Value) → Units
  | [] => [0x7d]
  | f :: fs => 0x2c :: quote f.1 ++ 0x3a :: stringify f.2 ++ moreFields fs

end

/-- Every value, from those in it. -/
theorem Value.inside {P : Value → Prop} (hnull : P .null) (hbool : ∀ b, P (.bool b))
    (hnumber : ∀ n, P (.number n)) (hstring : ∀ s, P (.string s))
    (harray : ∀ vs, (∀ v ∈ vs, P v) → P (.array vs))
    (hobject : ∀ fs, (∀ f ∈ fs, P f.2) → P (.object fs)) (v : Value) : P v := by
  induction hsize : sizeOf v using Nat.strongRecOn generalizing v with
  | _ n ih =>
    cases v with
    | null => exact hnull
    | bool b => exact hbool b
    | number n => exact hnumber n
    | string s => exact hstring s
    | array vs =>
      refine harray vs fun v hv => ih (sizeOf v) ?_ v rfl
      have hlt := List.sizeOf_lt_of_mem hv
      rw [← hsize, Value.array.sizeOf_spec]
      omega
    | object fs =>
      refine hobject fs fun f hf => ih (sizeOf f.2) ?_ f.2 rfl
      have hlt := List.sizeOf_lt_of_mem hf
      obtain ⟨k, v⟩ := f
      rw [Prod.mk.sizeOf_spec] at hlt
      change sizeOf v < n
      rw [← hsize, Value.object.sizeOf_spec]
      omega

/-- No number goes on. -/
def Delimited (r : Units) : Prop := ∀ u ∈ r.head?, isNumeric u = false

/-- The kind of a value, and that of a text from its first code unit. -/
def Value.kind : Value → Nat
  | .null => 0
  | .bool true => 1
  | .bool false => 2
  | .string _ => 3
  | .array _ => 4
  | .object _ => 5
  | .number _ => 6

def kindAt (u : UInt16) : Nat :=
  if u = 0x6e then 0
  else if u = 0x74 then 1
  else if u = 0x66 then 2
  else if u = 0x22 then 3
  else if u = 0x5b then 4
  else if u = 0x7b then 5
  else 6

theorem kindAt_of_isNumeric {u : UInt16} (h : isNumeric u) : kindAt u = 6 := by
  have hne (w : UInt16) (hw : isNumeric w = false) : u ≠ w := by
    rintro rfl
    simp [h] at hw
  simp [kindAt, hne 0x6e (by decide), hne 0x74 (by decide), hne 0x66 (by decide),
    hne 0x22 (by decide), hne 0x5b (by decide), hne 0x7b (by decide)]

theorem exists_stringify (v : Value) :
    ∃ u s, stringify v = u :: s ∧ kindAt u = v.kind ∧ u ≠ 0x5d := by
  cases v with
  | null => exact ⟨_, _, rfl, rfl, by decide⟩
  | bool b => cases b <;> exact ⟨_, _, rfl, rfl, by decide⟩
  | number n =>
    obtain ⟨u, s, hs⟩ := List.exists_cons_of_ne_nil n.nonempty
    have hu : isNumeric u := n.numeric u (hs ▸ List.mem_cons_self)
    refine ⟨u, s, hs, kindAt_of_isNumeric hu, ?_⟩
    rintro rfl
    exact absurd hu (by decide)
  | string s => exact ⟨_, _, rfl, rfl, by decide⟩
  | array vs => cases vs <;> exact ⟨0x5b, _, by rw [stringify]; rfl, rfl, by decide⟩
  | object fs => cases fs <;> exact ⟨0x7b, _, by rw [stringify]; rfl, rfl, by decide⟩

theorem kind_eq {v w : Value} {r r' : Units} (h : stringify v ++ r = stringify w ++ r') :
    v.kind = w.kind := by
  obtain ⟨u, s, hv, hu, -⟩ := exists_stringify v
  obtain ⟨x, t, hw, hx, -⟩ := exists_stringify w
  rw [hv, hw] at h
  rw [← hu, ← hx, (List.cons.inj h).1]

theorem Number.append_inj {n m : Number} {r r' : Units} (hr : Delimited r) (hr' : Delimited r')
    (h : n.text ++ r = m.text ++ r') : n = m ∧ r = r' := by
  have htake (n : Number) {r : Units} (hr : Delimited r) :
      (n.text ++ r).takeWhile isNumeric = n.text := by
    rw [List.takeWhile_append_of_pos n.numeric]
    cases r with
    | nil => exact List.append_nil _
    | cons u r => rw [List.takeWhile_cons_of_neg (by simp [hr u rfl]), List.append_nil]
  have htext : n.text = m.text := by rw [← htake n hr, h, htake m hr']
  refine ⟨?_, List.append_cancel_left (htext ▸ h)⟩
  cases n
  cases m
  cases htext
  rfl

/-- A value is read off the front of a text. -/
def Reads (v : Value) : Prop :=
  ∀ (w : Value) (r r' : Units), Delimited r → Delimited r' →
    stringify v ++ r = stringify w ++ r' → v = w ∧ r = r'

theorem delimited_moreItems (vs : List Value) (r : Units) : Delimited (moreItems vs ++ r) := by
  cases vs <;> simp only [moreItems, List.cons_append] <;> rintro u ⟨⟩ <;> rfl

theorem delimited_moreFields (fs : List (Units × Value)) (r : Units) :
    Delimited (moreFields fs ++ r) := by
  cases fs <;> simp only [moreFields, List.cons_append] <;> rintro u ⟨⟩ <;> rfl

theorem moreItems_append_inj {vs ws : List Value} (hreads : ∀ v ∈ vs, Reads v) {r r' : Units}
    (h : moreItems vs ++ r = moreItems ws ++ r') : vs = ws ∧ r = r' := by
  induction vs generalizing ws with
  | nil =>
    cases ws with
    | nil => exact ⟨rfl, (List.cons.inj h).2⟩
    | cons w ws => exact absurd (List.cons.inj h).1 (by decide)
  | cons v vs ih =>
    cases ws with
    | nil => exact absurd (List.cons.inj h).1 (by decide)
    | cons w ws =>
      simp only [moreItems, List.cons_append, List.append_assoc, List.cons.injEq, true_and] at h
      obtain ⟨rfl, hrest⟩ := hreads v List.mem_cons_self w _ _ (delimited_moreItems vs r)
        (delimited_moreItems ws r') h
      obtain ⟨rfl, rfl⟩ := ih (fun v hv => hreads v (List.mem_cons_of_mem _ hv)) hrest
      exact ⟨rfl, rfl⟩

theorem field_append_inj {k k' : Units} {v w : Value} (hreads : Reads v) {r r' : Units}
    (hr : Delimited r) (hr' : Delimited r')
    (h : quote k ++ (0x3a :: (stringify v ++ r)) = quote k' ++ (0x3a :: (stringify w ++ r'))) :
    (k, v) = (k', w) ∧ r = r' := by
  obtain ⟨rfl, hvalue⟩ := quote_append_inj h
  obtain ⟨rfl, rfl⟩ := hreads w r r' hr hr' (List.cons.inj hvalue).2
  exact ⟨rfl, rfl⟩

theorem moreFields_append_inj {fs gs : List (Units × Value)} (hreads : ∀ f ∈ fs, Reads f.2)
    {r r' : Units} (h : moreFields fs ++ r = moreFields gs ++ r') : fs = gs ∧ r = r' := by
  induction fs generalizing gs with
  | nil =>
    cases gs with
    | nil => exact ⟨rfl, (List.cons.inj h).2⟩
    | cons g gs => exact absurd (List.cons.inj h).1 (by decide)
  | cons f fs ih =>
    cases gs with
    | nil => exact absurd (List.cons.inj h).1 (by decide)
    | cons g gs =>
      simp only [moreFields, List.cons_append, List.append_assoc, List.cons.injEq, true_and] at h
      obtain ⟨heq, hrest⟩ := field_append_inj (hreads f List.mem_cons_self)
        (delimited_moreFields fs r) (delimited_moreFields gs r') h
      obtain ⟨rfl, rfl⟩ := ih (fun f hf => hreads f (List.mem_cons_of_mem _ hf)) hrest
      exact ⟨congrArg (· :: fs) heq, rfl⟩

theorem array_append_inj {vs ws : List Value} (hreads : ∀ v ∈ vs, Reads v) {r r' : Units}
    (h : stringify (.array vs) ++ r = stringify (.array ws) ++ r') : vs = ws ∧ r = r' := by
  have hne (v : Value) (vs : List Value) (r r' : Units) :
      stringify (.array (v :: vs)) ++ r ≠ stringify (.array []) ++ r' := by
    intro h
    obtain ⟨u, s, hs, -, hu⟩ := exists_stringify v
    rw [stringify, stringify, hs] at h
    exact hu (List.cons.inj (List.cons.inj h).2).1
  cases vs with
  | nil =>
    cases ws with
    | nil => exact ⟨rfl, List.append_cancel_left h⟩
    | cons w ws => exact absurd h.symm (hne w ws r' r)
  | cons v vs =>
    cases ws with
    | nil => exact absurd h (hne v vs r r')
    | cons w ws =>
      simp only [stringify, List.cons_append, List.append_assoc, List.cons.injEq, true_and] at h
      obtain ⟨rfl, hrest⟩ := hreads v List.mem_cons_self w _ _ (delimited_moreItems vs r)
        (delimited_moreItems ws r') h
      obtain ⟨rfl, rfl⟩ :=
        moreItems_append_inj (fun v hv => hreads v (List.mem_cons_of_mem _ hv)) hrest
      exact ⟨rfl, rfl⟩

theorem object_append_inj {fs gs : List (Units × Value)} (hreads : ∀ f ∈ fs, Reads f.2)
    {r r' : Units} (h : stringify (.object fs) ++ r = stringify (.object gs) ++ r') :
    fs = gs ∧ r = r' := by
  cases fs with
  | nil =>
    cases gs with
    | nil => exact ⟨rfl, List.append_cancel_left h⟩
    | cons g gs =>
      rw [stringify, stringify] at h
      exact absurd (List.cons.inj (List.cons.inj h).2).1 (by decide)
  | cons f fs =>
    cases gs with
    | nil =>
      rw [stringify, stringify] at h
      exact absurd (List.cons.inj (List.cons.inj h).2).1 (by decide)
    | cons g gs =>
      simp only [stringify, List.cons_append, List.append_assoc, List.cons.injEq, true_and] at h
      obtain ⟨heq, hrest⟩ := field_append_inj (hreads f List.mem_cons_self)
        (delimited_moreFields fs r) (delimited_moreFields gs r') h
      obtain ⟨rfl, rfl⟩ :=
        moreFields_append_inj (fun f hf => hreads f (List.mem_cons_of_mem _ hf)) hrest
      exact ⟨congrArg (· :: fs) heq, rfl⟩

theorem reads (v : Value) : Reads v := by
  induction v using Value.inside with
  | hnull =>
    intro w r r' _ _ h
    have hkind := kind_eq h
    cases w with
    | null => exact ⟨rfl, List.append_cancel_left h⟩
    | bool b => cases b <;> cases hkind
    | _ => cases hkind
  | hbool b =>
    intro w r r' _ _ h
    have hkind := kind_eq h
    cases w with
    | bool c =>
      have hbc : b = c := by cases b <;> cases c <;> first | rfl | cases hkind
      subst hbc
      exact ⟨rfl, List.append_cancel_left h⟩
    | _ => cases b <;> cases hkind
  | hnumber n =>
    intro w r r' hr hr' h
    have hkind := kind_eq h
    cases w with
    | number m =>
      simp only [stringify] at h
      obtain ⟨rfl, rfl⟩ := Number.append_inj hr hr' h
      exact ⟨rfl, rfl⟩
    | bool b => cases b <;> cases hkind
    | _ => cases hkind
  | hstring s =>
    intro w r r' _ _ h
    have hkind := kind_eq h
    cases w with
    | string t =>
      simp only [stringify] at h
      obtain ⟨rfl, rfl⟩ := quote_append_inj h
      exact ⟨rfl, rfl⟩
    | bool b => cases b <;> cases hkind
    | _ => cases hkind
  | harray vs ih =>
    intro w r r' _ _ h
    have hkind := kind_eq h
    cases w with
    | array ws =>
      obtain ⟨rfl, rfl⟩ := array_append_inj ih h
      exact ⟨rfl, rfl⟩
    | bool b => cases b <;> cases hkind
    | _ => cases hkind
  | hobject fs ih =>
    intro w r r' _ _ h
    have hkind := kind_eq h
    cases w with
    | object gs =>
      obtain ⟨rfl, rfl⟩ := object_append_inj ih h
      exact ⟨rfl, rfl⟩
    | bool b => cases b <;> cases hkind
    | _ => cases hkind

/-- The text of a value determines it. -/
theorem stringify_inj {v w : Value} (h : stringify v = stringify w) : v = w :=
  (reads v w [] [] (by simp [Delimited]) (by simp [Delimited]) (by rw [h])).1

/-! ## Bytes -/

/-- The bytes of a code unit that is not one of a pair. -/
def width (u : UInt16) : Nat := if u < 0x80 then 1 else if u < 0x800 then 2 else 3

/-- The length of what `TextEncoder` makes of a string: a half of a pair alone becomes U+FFFD. -/
def utf8Length : Units → Nat
  | [] => 0
  | [u] => width u
  | u :: v :: s => if isHigh u ∧ isLow v then 4 + utf8Length s else width u + utf8Length (v :: s)

/-! ## Bytes beyond code units -/

/-- The bytes beyond one of a code unit that is not one of a pair: half a pair is escaped. -/
def wideUnit (u : UInt16) : Nat := if isHigh u ∨ isLow u then 0 else width u - 1

/-- How many more bytes than code units a text takes in a JSON string. -/
def wideText : Units → Nat
  | [] => 0
  | [u] => wideUnit u
  | u :: v :: s =>
    if isHigh u ∧ isLow v then 2 + wideText s else wideUnit u + wideText (v :: s)

mutual

/-- How many more bytes than code units the text of a value takes. -/
def Value.wide : Value → Nat
  | .null => 0
  | .bool _ => 0
  | .number _ => 0
  | .string s => wideText s
  | .array vs => wideItems vs
  | .object fs => wideFields fs

def wideItems : List Value → Nat
  | [] => 0
  | v :: vs => v.wide + wideItems vs

def wideFields : List (Units × Value) → Nat
  | [] => 0
  | f :: fs => wideText f.1 + f.2.wide + wideFields fs

end

theorem wideItems_eq (vs : List Value) : wideItems vs = (vs.map Value.wide).sum := by
  induction vs with
  | nil => rfl
  | cons v vs ih => rw [wideItems, ih, List.map_cons, List.sum_cons]

theorem wideFields_append (fs gs : List (Units × Value)) :
    wideFields (fs ++ gs) = wideFields fs + wideFields gs := by
  induction fs with
  | nil => exact (Nat.zero_add _).symm
  | cons f fs ih =>
    rw [List.cons_append, wideFields, wideFields, ih]
    omega

/-- `s` takes `n` bytes more than it has code units, and does not begin with the second half of a
pair. -/
structure Wide (s : Units) (n : Nat) : Prop where
  bytes : utf8Length s = s.length + n
  first : ∀ u ∈ s.head?, isLow u = false

theorem utf8Length_append {s t : Units} (ht : ∀ u ∈ t.head?, isLow u = false) :
    utf8Length (s ++ t) = utf8Length s + utf8Length t := by
  induction s using utf8Length.induct with
  | case1 => exact (Nat.zero_add _).symm
  | case2 u =>
    cases t with
    | nil => rfl
    | cons v t =>
      have hv : isLow v = false := ht v rfl
      rw [List.singleton_append, utf8Length, utf8Length, if_neg (by simp [hv])]
  | case3 u v s h ih =>
    rw [List.cons_append, List.cons_append, utf8Length, if_pos h, utf8Length, if_pos h, ih]
    omega
  | case4 u v s h ih =>
    rw [List.cons_append, List.cons_append, utf8Length, if_neg h, utf8Length, if_neg h,
      ← List.cons_append, ih]
    omega

section
variable {s t : Units} {n m : Nat}

theorem Wide.append (hs : Wide s n) (ht : Wide t m) : Wide (s ++ t) (n + m) where
  bytes := by
    rw [utf8Length_append ht.first, hs.bytes, ht.bytes, List.length_append]
    omega
  first u hu := by
    cases s with
    | nil => exact ht.first u hu
    | cons v s => exact hs.first u hu

theorem Wide.single {u : UInt16} (h : isLow u = false) : Wide [u] (width u - 1) where
  bytes := by
    change width u = 1 + (width u - 1)
    have hpos : 1 ≤ width u := by
      unfold width
      split_ifs <;> decide
    omega
  first v hv := by
    cases hv
    exact h

theorem width_ascii {u : UInt16} (h : u < 0x80) : isLow u = false ∧ width u = 1 := by
  refine ⟨?_, if_pos h⟩
  have hlow : ¬(0xdc00 : UInt16) ≤ u := by
    rw [UInt16.le_iff_toNat_le]
    have hlt := UInt16.lt_iff_toNat_lt.1 h
    change ¬56320 ≤ u.toNat
    change u.toNat < 128 at hlt
    omega
  simp [isLow, hlow]

theorem Wide.cons {u : UInt16} (h : u < 0x80) (hs : Wide s n) : Wide (u :: s) n := by
  have hu := (Wide.single (width_ascii h).1).append hs
  rwa [(width_ascii h).2, Nat.sub_self, Nat.zero_add] at hu

theorem wide_of_ascii (h : ∀ u ∈ s, u < 0x80) : Wide s 0 := by
  induction s with
  | nil => exact ⟨rfl, fun u hu => by cases hu⟩
  | cons u s ih =>
    exact Wide.cons (h u List.mem_cons_self) (ih fun v hv => h v (List.mem_cons_of_mem _ hv))

/-- To decide it of a text one goes through its units, not through all there are. -/
theorem wide_of_all (h : s.all (fun u => decide (u < 0x80)) = true) : Wide s 0 :=
  wide_of_ascii fun u hu => of_decide_eq_true (List.all_eq_true.1 h u hu)

end

theorem hexDigit_ascii (n : Nat) (h : n < 16) : hexDigit n < 0x80 := by
  have hall : ∀ n : Fin 16, hexDigit n < 0x80 := by decide
  exact hall ⟨n, h⟩

theorem wide_escape (u : UInt16) : Wide (escape u) (wideUnit u) := by
  have hascii {v : UInt16} (hv : v < 0x80) : Wide [0x5c, v] 0 := by
    refine wide_of_ascii fun w hw => ?_
    simp only [List.mem_cons, List.not_mem_nil, or_false] at hw
    rcases hw with rfl | rfl
    · decide
    · exact hv
  have hunit (hu : u < 0x80) : wideUnit u = 0 := by
    unfold wideUnit
    split_ifs
    · rfl
    · rw [(width_ascii hu).2]
  unfold escape
  split_ifs with hsame hb hf hn hr ht hcontrol
  · have hu : u < 0x80 := by rcases hsame with rfl | rfl <;> decide
    exact hunit hu ▸ hascii hu
  · exact hunit (hb ▸ by decide) ▸ hascii (by decide)
  · exact hunit (hf ▸ by decide) ▸ hascii (by decide)
  · exact hunit (hn ▸ by decide) ▸ hascii (by decide)
  · exact hunit (hr ▸ by decide) ▸ hascii (by decide)
  · exact hunit (ht ▸ by decide) ▸ hascii (by decide)
  · have hzero : wideUnit u = 0 := by
      rcases hcontrol with hlt | hhalf | hhalf
      · exact hunit (UInt16.lt_trans hlt (by decide))
      · exact if_pos (.inl hhalf)
      · exact if_pos (.inr hhalf)
    have hu := u.toNat_lt
    rw [hzero]
    refine wide_of_ascii fun w hw => ?_
    simp only [unicodeEscape, List.mem_cons, List.not_mem_nil, or_false] at hw
    rcases hw with rfl | rfl | rfl | rfl | rfl | rfl
    · decide
    · decide
    all_goals exact hexDigit_ascii _ (by omega)
  · simp only [not_or, Bool.not_eq_true] at hcontrol
    rw [wideUnit, if_neg (by simp [hcontrol])]
    exact Wide.single hcontrol.2.2

theorem wide_escapes (s : Units) : Wide (escapes s) (wideText s) := by
  induction s using escapes.induct with
  | case1 => exact wide_of_ascii fun u hu => by cases hu
  | case2 u => exact wide_escape u
  | case3 u v s h ih =>
    rw [escapes, if_pos h, wideText, if_pos h]
    refine ⟨?_, fun w hw => ?_⟩
    · rw [utf8Length, if_pos h, ih.bytes, List.length_cons, List.length_cons]
      omega
    · cases hw
      have hhigh := h.1
      simp only [isHigh, Bool.and_eq_true, decide_eq_true_eq] at hhigh
      simp only [isLow, Bool.and_eq_false_iff, decide_eq_false_iff_not]
      exact .inl fun hle => UInt16.lt_irrefl _ (UInt16.lt_of_lt_of_le hhigh.2 hle)
  | case4 u v s h ih =>
    rw [escapes, if_neg h, wideText, if_neg h]
    exact (wide_escape u).append ih

theorem wide_quote (s : Units) : Wide (quote s) (wideText s) :=
  Wide.cons (by decide)
    ((wide_escapes s).append (wide_of_all (by decide)))

theorem wide_field {f : Units × Value} (h : Wide (stringify f.2) f.2.wide) :
    Wide (quote f.1 ++ 0x3a :: stringify f.2) (wideText f.1 + f.2.wide) :=
  (wide_quote f.1).append (Wide.cons (by decide) h)

theorem wide_moreItems {vs : List Value} (h : ∀ v ∈ vs, Wide (stringify v) v.wide) :
    Wide (moreItems vs) (wideItems vs) := by
  induction vs with
  | nil => exact wide_of_all (by decide)
  | cons v vs ih =>
    rw [moreItems, wideItems]
    exact (Wide.cons (by decide) (h v List.mem_cons_self)).append
      (ih fun v hv => h v (List.mem_cons_of_mem _ hv))

theorem wide_moreFields {fs : List (Units × Value)} (h : ∀ f ∈ fs, Wide (stringify f.2) f.2.wide) :
    Wide (moreFields fs) (wideFields fs) := by
  induction fs with
  | nil => exact wide_of_all (by decide)
  | cons f fs ih =>
    rw [moreFields, wideFields]
    exact (Wide.cons (by decide) (wide_field (h f List.mem_cons_self))).append
      (ih fun f hf => h f (List.mem_cons_of_mem _ hf))

theorem isNumeric_ascii {u : UInt16} (h : isNumeric u) : u < 0x80 := by
  simp only [isNumeric, Bool.or_eq_true, Bool.and_eq_true, decide_eq_true_eq] at h
  rcases h with (((h | rfl) | rfl) | rfl) | rfl
  · exact UInt16.lt_of_le_of_lt h.2 (by decide)
  all_goals decide

/-- The bytes of a value's text: its code units, and what the texts in it take beyond. -/
theorem wide_stringify (v : Value) : Wide (stringify v) v.wide := by
  induction v using Value.inside with
  | hnull => exact wide_of_all (by decide)
  | hbool b => cases b <;> exact wide_of_all (by decide)
  | hnumber n =>
    rw [stringify, Value.wide]
    exact wide_of_ascii fun u hu => isNumeric_ascii (n.numeric u hu)
  | hstring s =>
    rw [stringify, Value.wide]
    exact wide_quote s
  | harray vs ih =>
    cases vs with
    | nil => exact wide_of_all (by decide)
    | cons v vs =>
      rw [stringify, Value.wide, wideItems]
      exact (Wide.cons (by decide) (ih v List.mem_cons_self)).append
        (wide_moreItems fun v hv => ih v (List.mem_cons_of_mem _ hv))
  | hobject fs ih =>
    cases fs with
    | nil => exact wide_of_all (by decide)
    | cons f fs =>
      rw [stringify, Value.wide, wideFields]
      exact (Wide.cons (by decide) (wide_field (ih f List.mem_cons_self))).append
        (wide_moreFields fun f hf => ih f (List.mem_cons_of_mem _ hf))

/-! ## Code units -/

theorem length_moreItems (vs : List Value) :
    (moreItems vs).length = 1 + (vs.map fun v => (stringify v).length).sum + vs.length := by
  induction vs with
  | nil => rfl
  | cons v vs ih =>
    rw [moreItems, List.length_append, ih, List.length_cons, List.map_cons, List.sum_cons,
      List.length_cons]
    omega

theorem length_stringify_array (vs : List Value) : (stringify (.array vs)).length =
    2 + (vs.map fun v => (stringify v).length).sum + (vs.length - 1) := by
  cases vs with
  | nil => rfl
  | cons v vs =>
    rw [stringify, List.length_append, length_moreItems, List.length_cons, List.map_cons,
      List.sum_cons, List.length_cons]
    omega

/-- The code units of a field, without what sets it apart. -/
def fieldLength (f : Units × Value) : Nat := (quote f.1).length + 1 + (stringify f.2).length

theorem length_moreFields (fs : List (Units × Value)) :
    (moreFields fs).length = 1 + (fs.map fieldLength).sum + fs.length := by
  induction fs with
  | nil => rfl
  | cons f fs ih =>
    rw [moreFields, List.length_append, List.length_append, ih, List.length_cons, List.length_cons,
      List.map_cons, List.sum_cons, fieldLength, List.length_cons]
    omega

theorem length_stringify_object {fs : List (Units × Value)} (h : fs ≠ []) :
    (stringify (.object fs)).length = 1 + (fs.map fieldLength).sum + fs.length := by
  obtain ⟨f, fs, rfl⟩ := List.exists_cons_of_ne_nil h
  rw [stringify, List.length_append, List.length_append, length_moreFields, List.length_cons,
    List.length_cons, List.map_cons, List.sum_cons, fieldLength, List.length_cons]
  omega

end Stringify
