import Mathlib.Data.List.TakeWhile
import RemoteHub.Lib.IpAddr
import RemoteHub.Lib.Split

/-!
# Texts of internet addresses

A reader takes the front of a text: `Takes p n` bounds how many characters and says what they are, so an
accepted text is short and has only the characters of addresses (`IpAddr.of_parse`). A number is read off
the front of a text that goes on with something else (`readNumber_toDigits`); so each address is read from
its text again (`IpAddr.parse_toText`), and that text is bounded too.
-/

namespace Net

open Digits

/-! ## What readers take -/

/-- A character of an address. -/
def isAddress (c : Char) : Bool := isDigit 16 c || c = ':' || c = '.'

/-- A character of an IPv4 address. -/
def isIpv4 (c : Char) : Bool := isDigit 10 c || c = '.'

/-- A reader takes at most `n` characters, of which `p` holds, off the front. -/
def Takes {α : Type} (p : Char → Bool) (n : Nat) (text : List Char) (result : Option (α × List Char)) :
    Prop :=
  ∀ r, result = some r → ∃ taken, text = taken ++ r.2 ∧ taken.length ≤ n ∧ ∀ c ∈ taken, p c = true

section
variable {α β : Type} {p q : Char → Bool} {n m : Nat} {text : List Char}

theorem Takes.mono {result : Option (α × List Char)} (h : Takes p n text result)
    (hp : ∀ c, p c = true → q c = true) (hle : n ≤ m) : Takes q m text result := by
  intro r hr
  obtain ⟨taken, htext, hlen, hchars⟩ := h r hr
  exact ⟨taken, htext, hlen.trans hle, fun c hc => hp c (hchars c hc)⟩

theorem Takes.bind {result : Option (α × List Char)} {f : α × List Char → Option (β × List Char)}
    (h : Takes p n text result) (hf : ∀ r, Takes p m r.2 (f r)) : Takes p (n + m) text (result.bind f) := by
  intro r hr
  obtain ⟨s, hs, hr⟩ := Option.bind_eq_some_iff.1 hr
  obtain ⟨taken, htext, hlen, hchars⟩ := h s hs
  obtain ⟨taken', hrest, hlen', hchars'⟩ := hf s r hr
  refine ⟨taken ++ taken', by rw [htext, hrest, List.append_assoc], ?_, ?_⟩
  · rw [List.length_append]
    omega
  · intro c hc
    exact (List.mem_append.1 hc).elim (hchars c) (hchars' c)

theorem Takes.map {result : Option (α × List Char)} {f : α × List Char → β × List Char}
    (h : Takes p n text result) (hf : ∀ r, (f r).2 = r.2) : Takes p n text (result.map f) := by
  intro r hr
  obtain ⟨s, hs, rfl⟩ := Option.map_eq_some_iff.1 hr
  rw [hf]
  exact h s hs

theorem takes_readChar {c : Char} (hc : p c = true) : Takes p 1 text (readChar c text) := by
  intro r hr
  cases text with
  | nil => cases hr
  | cons d rest =>
    simp only [readChar] at hr
    split at hr
    · rename_i hd
      cases hr
      exact ⟨[d], rfl, le_rfl, fun e he => by rw [List.mem_singleton.1 he, hd]; exact hc⟩
    · cases hr

theorem isDigit_mono {radix radix' : Nat} (hradix : radix ≤ radix') {c : Char}
    (h : isDigit radix c = true) : isDigit radix' c = true := by
  unfold isDigit digitValue at h ⊢
  dsimp only at h ⊢
  obtain ⟨v, hv⟩ := Option.isSome_iff_exists.1 h
  obtain ⟨hv, hlt⟩ := Option.filter_eq_some_iff.1 hv
  rw [Option.isSome_iff_exists]
  refine ⟨v, Option.filter_eq_some_iff.2 ⟨hv, ?_⟩⟩
  exact decide_eq_true (lt_of_lt_of_le (of_decide_eq_true hlt) hradix)

theorem isAddress_of_isIpv4 (c : Char) (h : isIpv4 c = true) : isAddress c = true := by
  rw [isIpv4, Bool.or_eq_true] at h
  rw [isAddress]
  rcases h with h | h
  · rw [isDigit_mono (by decide) h, Bool.true_or, Bool.true_or]
  · rw [h, Bool.or_true]

theorem takes_readNumber {radix most bound : Nat} {zeroPrefix : Bool}
    (hp : ∀ c, isDigit radix c = true → p c = true) :
    Takes p most text (readNumber radix most zeroPrefix bound text) := by
  intro r hr
  simp only [readNumber] at hr
  split at hr
  · cases hr
  · rename_i hvalid
    cases hr
    rw [not_or, not_or] at hvalid
    refine ⟨text.takeWhile (isDigit radix), (List.takeWhile_append_dropWhile).symm,
      not_lt.1 hvalid.2.1, ?_⟩
    intro c hc
    exact hp c (List.mem_takeWhile_imp hc)

theorem takes_readSeparator {separator : Char} (hsep : p separator = true) {index : Nat}
    {inner : Reader α} (hinner : ∀ text, Takes p n text (inner text)) :
    Takes p (1 + n) text (readSeparator separator index inner text) := by
  unfold readSeparator
  split
  · exact (hinner text).mono (fun c hc => hc) (by omega)
  · exact (takes_readChar hsep).bind fun r => hinner r.2

theorem takes_readIpv4 : Takes isIpv4 16 text (readIpv4 text) := by
  have hoctet : ∀ index text,
      Takes isIpv4 (1 + 3) text (readSeparator '.' index (readNumber 10 3 false 255) text) :=
    fun index text => takes_readSeparator (by decide) fun text =>
      takes_readNumber fun c hc => by rw [isIpv4, hc, Bool.true_or]
  exact (hoctet 0 text).bind fun a => (hoctet 1 a.2).bind fun b => (hoctet 2 b.2).bind fun c =>
    Takes.map (f := fun d => (BitVec.ofNat 32 (ofDigits 256 [a.1, b.1, c.1, d.1]), d.2)) (hoctet 3 c.2)
      fun d => rfl

theorem takes_group (limit index : Nat) :
    Takes isAddress (1 + 4) text (readSeparator ':' index (readNumber 16 4 true 65535) text) ∧
      Takes isAddress (1 + 16) text
        (if index + 1 < limit then readSeparator ':' index readIpv4 text else none) := by
  refine ⟨takes_readSeparator (by decide) fun _ => takes_readNumber fun c hc => ?_, ?_⟩
  · rw [isAddress, hc, Bool.true_or, Bool.true_or]
  · split
    · exact takes_readSeparator (by decide) fun _ => takes_readIpv4.mono isAddress_of_isIpv4 le_rfl
    · exact fun r hr => by cases hr

/-- The groups that are read take at most five characters each, and an IPv4 address at the end. -/
theorem takes_readGroups (limit index : Nat) (text : List Char) :
    Takes isAddress (5 * (limit - index) + 17) text (some (readGroups limit index text)) := by
  induction hk : limit - index generalizing index text with
  | zero =>
    intro r hr
    unfold readGroups at hr
    rw [if_neg (by omega)] at hr
    cases hr
    exact ⟨[], rfl, by simp, fun c hc => absurd hc List.not_mem_nil⟩
  | succ k ih =>
    intro r hr
    cases hr
    unfold readGroups
    rw [if_pos (by omega)]
    split
    · rename_i value rest hipv4
      obtain ⟨taken, htext, hlen, hchars⟩ := (takes_group _ _).2 _ hipv4
      exact ⟨taken, htext, by omega, hchars⟩
    · split
      · rename_i group rest hgroup
        obtain ⟨taken, htext, hlen, hchars⟩ := (takes_group limit _).1 _ hgroup
        obtain ⟨taken', hrest, hlen', hchars'⟩ := ih (index + 1) rest (by omega) _ rfl
        refine ⟨taken ++ taken', ?_, ?_, ?_⟩
        · rw [htext, List.append_assoc]
          exact congrArg (taken ++ ·) hrest
        · rw [List.length_append]
          omega
        · intro c hc
          exact (List.mem_append.1 hc).elim (hchars c) (hchars' c)
      · exact ⟨[], rfl, by simp, fun c hc => absurd hc List.not_mem_nil⟩

theorem takes_readIpv6 : Takes isAddress 112 text (readIpv6 text) := by
  obtain ⟨taken, htext, hlen, hchars⟩ := takes_readGroups 8 0 text _ rfl
  intro r hr
  unfold readIpv6 at hr
  rcases hgroups : readGroups 8 0 text with ⟨⟨head, headIpv4⟩, rest⟩
  rw [hgroups] at hr htext
  dsimp only at hr htext
  split at hr
  · cases hr
    exact ⟨taken, htext, by omega, hchars⟩
  · split at hr
    · cases hr
    · rename_i hhead _
      have hrest : Takes isAddress 54 rest ((readChar ':' rest).bind fun colon =>
          (readChar ':' colon.2).map fun colons =>
            let groups := readGroups (8 - (head.length + 1)) 0 colons.2
            let zeros := List.replicate (8 - head.length - groups.1.1.length) 0
            ((BitVec.ofNat 128 (ofDigits 65536 (head ++ zeros ++ groups.1.1))), groups.2)) := by
        refine Takes.mono (Takes.bind (m := 53) (takes_readChar (p := isAddress) (by decide)) fun colon => ?_)
          (fun c hc => hc) (by omega)
        intro s hs
        obtain ⟨colons, hcolons, rfl⟩ := Option.map_eq_some_iff.1 hs
        obtain ⟨taken₁, htext₁, hlen₁, hchars₁⟩ := takes_readChar (p := isAddress) (by decide) _ hcolons
        obtain ⟨taken₂, htext₂, hlen₂, hchars₂⟩ :=
          takes_readGroups (8 - (head.length + 1)) 0 colons.2 _ rfl
        refine ⟨taken₁ ++ taken₂, ?_, ?_, ?_⟩
        · rw [htext₁, List.append_assoc]
          exact congrArg (taken₁ ++ ·) htext₂
        · rw [List.length_append]
          omega
        · intro c hc
          exact (List.mem_append.1 hc).elim (hchars₁ c) (hchars₂ c)
      obtain ⟨taken', htext', hlen', hchars'⟩ := hrest r hr
      refine ⟨taken ++ taken', by rw [htext, htext', List.append_assoc], ?_, ?_⟩
      · rw [List.length_append]
        omega
      · intro c hc
        exact (List.mem_append.1 hc).elim (hchars c) (hchars' c)

/-- Without a colon there is no IPv6 address. -/
theorem readIpv6_eq_none (h : ':' ∉ text) : readIpv6 text = none := by
  have hchar : ∀ rest : List Char, ':' ∉ rest → readChar ':' rest = none := by
    intro rest hrest
    cases rest with
    | nil => rfl
    | cons c rest =>
      rw [readChar, if_neg]
      rintro rfl
      exact hrest List.mem_cons_self
  have hstop : ∀ rest : List Char, ':' ∉ rest → readGroups 8 1 rest = (([], false), rest) := by
    intro rest hrest
    have hnone : ∀ {α : Type} (inner : Reader α), readSeparator ':' 1 inner rest = none := by
      intro α inner
      rw [readSeparator, if_neg (by decide), hchar rest hrest]
      rfl
    rw [readGroups, hnone, hnone]
    rfl
  have hshort : (readGroups 8 0 text).1.1.length ≤ 2 ∧ ((readGroups 8 0 text).1.2 = false ∨
      (readGroups 8 0 text).1.1.length = 2) := by
    unfold readGroups
    rw [if_pos (by decide)]
    split
    · exact ⟨le_rfl, .inr rfl⟩
    · split
      · rename_i group rest hgroup
        obtain ⟨taken, htext, -⟩ := (takes_group 8 _).1 _ hgroup
        rw [hstop rest fun hmem => h (htext ▸ List.mem_append_right taken hmem)]
        exact ⟨by simp, .inl rfl⟩
      · exact ⟨by simp, .inl rfl⟩
  obtain ⟨taken, htext, -⟩ := takes_readGroups 8 0 text _ rfl
  unfold readIpv6
  rcases hgroups : readGroups 8 0 text with ⟨⟨head, headIpv4⟩, rest⟩
  rw [hgroups] at hshort htext
  dsimp only at hshort htext ⊢
  rw [if_neg (by omega)]
  split
  · rfl
  · rw [hchar rest fun hmem => h (htext ▸ List.mem_append_right taken hmem)]
    rfl

/-- An IPv4 address has digits and dots. -/
theorem IpAddr.of_parse_v4 {text : String} {value : BitVec 32} (h : IpAddr.parse text = some (.v4 value)) :
    ∀ c ∈ text.toList, isIpv4 c = true := by
  simp only [IpAddr.parse] at h
  split at h
  · rename_i ip hread
    cases h
    rcases Option.or_eq_some_iff.1 hread with hread | ⟨-, hread⟩
    · obtain ⟨r, hr, heq⟩ := Option.map_eq_some_iff.1 hread
      obtain ⟨taken, htext, -, hchars⟩ := takes_readIpv4 r hr
      have hnil : r.2 = [] := congrArg Prod.snd heq
      rw [hnil, List.append_nil] at htext
      rw [htext]
      exact hchars
    · obtain ⟨r, -, heq⟩ := Option.map_eq_some_iff.1 hread
      cases congrArg Prod.fst heq
  · cases h

/-- An IPv6 address has a colon. -/
theorem IpAddr.of_parse_v6 {text : String} {value : BitVec 128} (h : IpAddr.parse text = some (.v6 value)) :
    ':' ∈ text.toList := by
  by_contra hcolon
  simp only [IpAddr.parse, readIpv6_eq_none hcolon, Option.map_none, Option.or_none] at h
  split at h
  · rename_i ip hread
    obtain ⟨r, -, heq⟩ := Option.map_eq_some_iff.1 hread
    cases h
    cases congrArg Prod.fst heq
  · cases h

/-- **What an accepted text looks like.** -/
theorem IpAddr.of_parse {text : String} {ip : IpAddr} (h : IpAddr.parse text = some ip) :
    text.length ≤ 112 ∧ ∀ c ∈ text.toList, isAddress c = true := by
  have htakes : Takes isAddress 112 text.toList (((readIpv4 text.toList).map fun r => (IpAddr.v4 r.1, r.2)).or
      ((readIpv6 text.toList).map fun r => (IpAddr.v6 r.1, r.2))) := by
    have hv4 : Takes isIpv4 16 text.toList ((readIpv4 text.toList).map fun r => (IpAddr.v4 r.1, r.2)) :=
      takes_readIpv4.map fun _ => rfl
    have hv6 : Takes isAddress 112 text.toList ((readIpv6 text.toList).map fun r => (IpAddr.v6 r.1, r.2)) :=
      takes_readIpv6.map fun _ => rfl
    intro r hr
    rcases Option.or_eq_some_iff.1 hr with hr | ⟨-, hr⟩
    · exact hv4.mono isAddress_of_isIpv4 (by omega) r hr
    · exact hv6 r hr
  simp only [IpAddr.parse] at h
  split at h
  · rename_i ip' hread
    obtain ⟨taken, htext, hlen, hchars⟩ := htakes _ hread
    rw [List.append_nil] at htext
    rw [← htext] at hlen hchars
    rw [← String.length_toList]
    exact ⟨hlen, hchars⟩
  · cases h

end

/-! ## Numbers -/

theorem digitValue_digitChar {radix d : Nat} (hradix : radix ≤ 16) (hd : d < radix) :
    digitValue radix d.digitChar = some d := by
  have hall : ∀ x : Fin 16, digitValue 16 x.val.digitChar = some x.val := by decide
  have h := hall ⟨d, by omega⟩
  unfold digitValue at h ⊢
  dsimp only at h ⊢
  obtain ⟨hvalue, -⟩ := Option.filter_eq_some_iff.1 h
  exact Option.filter_eq_some_iff.2 ⟨hvalue, decide_eq_true hd⟩

/-- The digits of a number, as numbers. -/
theorem toDigits_digits {b : Nat} (hb : 1 < b) (n : Nat) :
    ∃ ds : List Nat, (∀ d ∈ ds, d < b) ∧ Nat.toDigits b n = ds.map Nat.digitChar ∧
      Digits.ofDigits b ds = n ∧ ds ≠ [] ∧ (ds.head? = some 0 → ds.length = 1) := by
  induction n using Nat.strongRecOn with
  | ind n ih =>
    by_cases hlow : n < b
    · refine ⟨[n], by simpa using hlow, Nat.toDigits_of_lt_base hlow, ?_, by simp, fun _ => rfl⟩
      simp [Digits.ofDigits]
    · have hdiv : 0 < n / b := Nat.div_pos (not_lt.1 hlow) (by omega)
      obtain ⟨ds, hlt, htext, hnum, hne, hzero⟩ := ih (n / b) (Nat.div_lt_self (by omega) hb)
      refine ⟨ds ++ [n % b], ?_, ?_, ?_, by simp, ?_⟩
      · intro d hd
        rcases List.mem_append.1 hd with hd | hd
        · exact hlt d hd
        · rw [List.mem_singleton.1 hd]
          exact Nat.mod_lt n (by omega)
      · rw [Nat.toDigits_of_base_le hb (not_lt.1 hlow), htext, List.map_append]
        rfl
      · rw [ofDigits_append_singleton, hnum, Nat.mul_comm, Nat.div_add_mod]
      · intro hhead
        obtain ⟨d, rest, rfl⟩ := List.exists_cons_of_ne_nil hne
        have hd : d = 0 := by simpa using hhead
        subst hd
        have hrest := hzero rfl
        rw [List.length_cons] at hrest
        rw [List.eq_nil_of_length_eq_zero (by omega : rest.length = 0)] at hnum
        simp [Digits.ofDigits] at hnum
        omega

/-- A text that does not go on with a digit. -/
def Stops (radix : Nat) (rest : List Char) : Prop := ∀ c ∈ rest.head?, isDigit radix c = false

theorem takeWhile_digits {radix : Nat} {digits rest : List Char}
    (h : ∀ c ∈ digits, isDigit radix c = true) (hrest : Stops radix rest) :
    (digits ++ rest).takeWhile (isDigit radix) = digits ∧
      (digits ++ rest).dropWhile (isDigit radix) = rest := by
  rw [List.takeWhile_append_of_pos h, List.dropWhile_append_of_pos h]
  cases rest with
  | nil => simp
  | cons c rest =>
    have hc : isDigit radix c = false := hrest c rfl
    rw [List.takeWhile_cons_of_neg (by rw [hc]; decide), List.dropWhile_cons_of_neg (by rw [hc]; decide),
      List.append_nil]
    exact ⟨rfl, rfl⟩

theorem isDigit_of_mem_toDigits {radix n : Nat} (hradix : 1 < radix ∧ radix ≤ 16) {c : Char}
    (h : c ∈ Nat.toDigits radix n) : isDigit radix c = true := by
  obtain ⟨ds, hlt, htext, -⟩ := toDigits_digits hradix.1 n
  rw [htext] at h
  obtain ⟨d, hd, rfl⟩ := List.mem_map.1 h
  rw [isDigit, digitValue_digitChar hradix.2 (hlt d hd)]
  rfl

/-- **A number is read off the front.** -/
theorem readNumber_toDigits {radix most bound n : Nat} {zeroPrefix : Bool} {rest : List Char}
    (hradix : 1 < radix ∧ radix ≤ 16) (hmost : (Nat.toDigits radix n).length ≤ most) (hbound : n ≤ bound)
    (hrest : Stops radix rest) :
    readNumber radix most zeroPrefix bound (Nat.toDigits radix n ++ rest) = some (n, rest) := by
  obtain ⟨htake, hdrop⟩ :=
    takeWhile_digits (fun c hc => isDigit_of_mem_toDigits (n := n) hradix hc) hrest
  obtain ⟨ds, hlt, htext, hnum, hne, hzero⟩ := toDigits_digits hradix.1 n
  have hread : (Nat.toDigits radix n).filterMap (digitValue radix) = ds := by
    rw [htext, List.filterMap_map]
    refine (List.filterMap_congr fun d hd => ?_).trans List.filterMap_some
    exact digitValue_digitChar hradix.2 (hlt d hd)
  have hhead : (Nat.toDigits radix n).head? = some '0' → (Nat.toDigits radix n).length = 1 := by
    intro h
    rw [htext, List.head?_map, Option.map_eq_some_iff] at h
    obtain ⟨d, hd, hchar⟩ := h
    have hall : ∀ x : Fin 16, x.val.digitChar = '0' → x.val = 0 := by decide
    have hd0 : d = 0 := hall ⟨d, (hlt d (List.mem_of_mem_head? hd)).trans_le hradix.2⟩ hchar
    rw [htext, List.length_map]
    exact hzero (hd0 ▸ hd)
  have hnum' : ofDigits radix ds = n := hnum
  simp only [readNumber, htake, hdrop, hread, hnum']
  rw [if_neg]
  rintro (hnil | hlong | ⟨-, h0, hlong⟩ | hbig)
  · exact Nat.toDigits_ne_nil hnil
  · omega
  · rw [hhead h0] at hlong
    exact absurd hlong (by decide)
  · omega

/-! ## IPv4 -/

@[simp] theorem readSeparator_zero {α : Type} (separator : Char) (inner : Reader α) (text : List Char) :
    readSeparator separator 0 inner text = inner text := rfl

@[simp] theorem readSeparator_succ {α : Type} (separator : Char) (index : Nat) (inner : Reader α)
    (text : List Char) :
    readSeparator separator (index + 1) inner (separator :: text) = inner text := by
  rw [readSeparator, if_neg (by omega), readChar, if_pos rfl]
  rfl

theorem readOctet {n : Nat} {rest : List Char} (hn : n < 256) (hrest : Stops 10 rest) :
    readNumber 10 3 false 255 (Nat.toDigits 10 n ++ rest) = some (n, rest) :=
  readNumber_toDigits (by decide) ((Nat.length_toDigits_le_iff (by decide) (by decide)).2 (by omega))
    (by omega) hrest

theorem stops_nil (radix : Nat) : Stops radix [] := fun c hc => by cases hc

theorem stops_dot (rest : List Char) : Stops 10 ('.' :: rest) := by
  rintro c hc
  cases hc
  decide

theorem readIpv4_text (value : BitVec 32) {rest : List Char} (hrest : Stops 10 rest) :
    readIpv4 (ipv4Text value ++ rest) = some (value, rest) := by
  have hvalue : BitVec.ofNat 32 (ofDigits 256 (octets value)) = value := by
    have hdigits : ofDigits 256 (octets value) = value.toNat := ofDigits_digits value.isLt
    rw [hdigits, BitVec.ofNat_toNat, BitVec.setWidth_eq]
  obtain ⟨a, b, c, d, hoctets⟩ : ∃ a b c d, octets value = [a, b, c, d] := ⟨_, _, _, _, rfl⟩
  have hlt : ∀ n ∈ octets value, n < 256 := fun n hn => mem_digits_lt (by decide) hn
  rw [hoctets] at hlt hvalue
  simp only [List.forall_mem_cons] at hlt
  obtain ⟨ha, hb, hc, hd, -⟩ := hlt
  have htext : ipv4Text value ++ rest = Nat.toDigits 10 a ++ '.' :: (Nat.toDigits 10 b ++
      '.' :: (Nat.toDigits 10 c ++ '.' :: (Nat.toDigits 10 d ++ rest))) := by
    simp [ipv4Text, hoctets, separated]
  rw [htext]
  simp only [readIpv4, readSeparator_zero, readSeparator_succ, readOctet ha (stops_dot _),
    readOctet hb (stops_dot _), readOctet hc (stops_dot _), readOctet hd hrest, Option.bind_some,
    Option.map_some, hvalue]

/-- An IPv4 address goes on with a dot after its first number. -/
theorem readIpv4_eq_none {text : List Char} (h : (text.dropWhile (isDigit 10)).head? ≠ some '.') :
    readIpv4 text = none := by
  unfold readIpv4
  refine Option.bind_eq_none_iff.2 fun a ha => ?_
  have hrest : a.2 = text.dropWhile (isDigit 10) := by
    simp only [readSeparator_zero, readNumber] at ha
    split at ha
    · cases ha
    · cases ha
      rfl
  have hchar : readChar '.' a.2 = none := by
    rw [hrest]
    cases hdrop : text.dropWhile (isDigit 10) with
    | nil => rfl
    | cons c rest =>
      rw [hdrop, List.head?_cons, ne_eq, Option.some.injEq] at h
      rw [readChar, if_neg h]
  have hnext : readSeparator '.' 1 (readNumber 10 3 false 255) a.2 = none := by
    rw [readSeparator, if_neg (by decide), hchar]
    rfl
  exact Option.bind_eq_none_iff.2 fun b hb => absurd (hb.symm.trans hnext) (Option.some_ne_none b)

/-! ## Groups -/

/-- A text that ends or goes on with a colon. -/
def AtColon (rest : List Char) : Prop := ∀ c ∈ rest.head?, c = ':'

theorem AtColon.stops {radix : Nat} {rest : List Char} (hradix : radix ≤ 16) (h : AtColon rest) :
    Stops radix rest := by
  intro c hc
  rw [h c hc]
  by_contra hdigit
  rw [Bool.not_eq_false, isDigit, Option.isSome_iff_exists] at hdigit
  obtain ⟨v, hv⟩ := hdigit
  have hnone : digitValue 16 ':' = none := by decide
  unfold digitValue at hv hnone
  dsimp only at hv hnone
  obtain ⟨hvalue, hlt⟩ := Option.filter_eq_some_iff.1 hv
  rw [Option.filter_eq_none_iff] at hnone
  exact hnone v hvalue (decide_eq_true ((of_decide_eq_true hlt).trans_le hradix))

theorem atColon_nil : AtColon [] := fun c hc => by cases hc

theorem atColon_cons (rest : List Char) : AtColon (':' :: rest) := fun c hc => by
  cases hc
  rfl

theorem readIpv4_hex (group : Nat) {rest : List Char} (hrest : AtColon rest) :
    readIpv4 (hex group ++ rest) = none := by
  refine readIpv4_eq_none fun h => ?_
  rw [List.dropWhile_append] at h
  split at h
  · have hdrop : rest.dropWhile (isDigit 10) = rest := by
      cases rest with
      | nil => rfl
      | cons c rest =>
        have hc : isDigit 10 c = false := hrest.stops (by decide) c rfl
        exact List.dropWhile_cons_of_neg (by rw [hc]; decide)
    rw [hdrop] at h
    exact absurd (hrest '.' h) (by decide)
  · rename_i hne
    have hmem : '.' ∈ hex group := by
      have hcons : (hex group).dropWhile (isDigit 10) ≠ [] := fun hnil => hne (by rw [hnil]; rfl)
      obtain ⟨c, letters, hletters⟩ := List.exists_cons_of_ne_nil hcons
      rw [hletters, List.cons_append, List.head?_cons, Option.some.injEq] at h
      subst h
      exact (List.dropWhile_sublist _).subset (hletters ▸ List.mem_cons_self)
    exact absurd (isDigit_of_mem_toDigits (by decide) hmem) (by decide)

theorem readGroup {group : Nat} {rest : List Char} (hgroup : group < 65536) (hrest : AtColon rest) :
    readNumber 16 4 true 65535 (hex group ++ rest) = some (group, rest) :=
  readNumber_toDigits (by decide) ((Nat.length_toDigits_le_iff (by decide) (by decide)).2 (by omega))
    (by omega) (hrest.stops (by decide))

/-- Groups as they stand in a text, from the one with number `index` on. -/
def groupsText : Nat → List Nat → List Char
  | _, [] => []
  | 0, group :: groups => hex group ++ groupsText 1 groups
  | index + 1, group :: groups => ':' :: hex group ++ groupsText (index + 2) groups

theorem groupsText_succ (i j : Nat) (groups : List Nat) :
    groupsText (i + 1) groups = groupsText (j + 1) groups := by
  induction groups generalizing i j with
  | nil => rfl
  | cons group groups ih => rw [groupsText, groupsText, ih (i + 1) (j + 1)]

theorem separated_hex (groups : List Nat) : separated ':' (groups.map hex) = groupsText 0 groups := by
  have hrest : ∀ groups : List Nat, groups ≠ [] →
      ':' :: separated ':' (groups.map hex) = groupsText 1 groups := by
    intro groups
    induction groups with
    | nil => exact fun h => absurd rfl h
    | cons group groups ih =>
      intro _
      cases groups with
      | nil => simp [separated, groupsText]
      | cons next groups =>
        have hnext := ih (by simp)
        rw [groupsText, groupsText_succ 1 0, ← hnext]
        simp [separated]
  cases groups with
  | nil => rfl
  | cons group groups =>
    cases groups with
    | nil => simp [separated, groupsText]
    | cons next groups =>
      rw [groupsText, ← hrest (next :: groups) (by simp)]
      simp [separated]

theorem atColon_groupsText (index : Nat) (groups : List Nat) {rest : List Char} (hrest : AtColon rest) :
    AtColon (groupsText (index + 1) groups ++ rest) := by
  cases groups with
  | nil => exact hrest
  | cons group groups => exact atColon_cons _

/-- Nothing is read at an end or at two colons. -/
theorem readGroups_stop (limit index : Nat) {rest : List Char}
    (hrest : rest = [] ∨ ∃ after, rest = ':' :: ':' :: after) :
    readGroups limit index rest = (([], false), rest) := by
  have hcolon : ∀ after, readIpv4 (':' :: after) = none := fun after => readIpv4_eq_none (by
    rw [List.dropWhile_cons_of_neg (by decide), List.head?_cons, ne_eq, Option.some.injEq]
    decide)
  have hnumber : ∀ after, readNumber 16 4 true 65535 (':' :: after) = none := by
    intro after
    simp only [readNumber]
    exact if_pos (.inl (List.takeWhile_cons_of_neg (by decide)))
  have hipv4 : readSeparator ':' index readIpv4 rest = none := by
    cases index with
    | zero =>
      rcases hrest with rfl | ⟨after, rfl⟩
      · rfl
      · exact hcolon (':' :: after)
    | succ index =>
      rcases hrest with rfl | ⟨after, rfl⟩
      · rfl
      · rw [readSeparator_succ, hcolon]
  have hgroup : readSeparator ':' index (readNumber 16 4 true 65535) rest = none := by
    cases index with
    | zero =>
      rcases hrest with rfl | ⟨after, rfl⟩
      · rfl
      · exact hnumber (':' :: after)
    | succ index =>
      rcases hrest with rfl | ⟨after, rfl⟩
      · rfl
      · rw [readSeparator_succ, hnumber]
  unfold readGroups
  rw [hipv4, hgroup, ite_self]
  split <;> rfl

/-- **Groups are read off the front**, up to two colons, the end, or the limit. -/
theorem readGroups_text (limit index : Nat) (groups : List Nat) {rest : List Char}
    (hlimit : index + groups.length ≤ limit) (hlt : ∀ group ∈ groups, group < 65536)
    (hrest : AtColon rest)
    (hstop : limit = index + groups.length ∨ rest = [] ∨ ∃ after, rest = ':' :: ':' :: after) :
    readGroups limit index (groupsText index groups ++ rest) = ((groups, false), rest) := by
  induction groups generalizing index with
  | nil =>
    rcases hstop with hfull | hstop
    · rw [readGroups, if_neg (by rw [hfull]; simp)]
      simp [groupsText]
    · have hnil : groupsText index [] = [] := by cases index <;> rfl
      rw [hnil]
      exact readGroups_stop limit index hstop
  | cons group groups ih =>
    rw [List.length_cons] at hlimit hstop
    have hnext := ih (index + 1) (by omega) (fun g hg => hlt g (List.mem_cons_of_mem _ hg))
      (by rcases hstop with h | h
          · exact .inl (by omega)
          · exact .inr h)
    have hafter := atColon_groupsText index groups hrest
    have hgroup := hlt group List.mem_cons_self
    have hread : ∀ {α : Type} (inner : Reader α),
        readSeparator ':' index inner (groupsText index (group :: groups) ++ rest) =
          inner (hex group ++ (groupsText (index + 1) groups ++ rest)) := by
      intro α inner
      cases index with
      | zero => rw [readSeparator_zero, groupsText, List.append_assoc]
      | succ index =>
        rw [groupsText, List.cons_append, List.cons_append, readSeparator_succ, List.append_assoc]
    rw [readGroups, if_pos (by omega), hread, hread, readIpv4_hex group hafter, readGroup hgroup hafter,
      ite_self]
    simp only [hnext]

/-! ## Runs of zeros -/

/-- A run of zeros within a list. -/
def Span.Zeros (span : Span) (segments : List Nat) : Prop :=
  span.start + span.len ≤ segments.length ∧
    ∀ i, span.start ≤ i → i < span.start + span.len → segments[i]? = some 0

theorem Span.Zeros.append {span : Span} {segments : List Nat} (h : span.Zeros segments) (more : List Nat) :
    span.Zeros (segments ++ more) := by
  refine ⟨h.1.trans (by rw [List.length_append]; omega), fun i hlow hhigh => ?_⟩
  rw [List.getElem?_append_left (by have := h.1; omega)]
  exact h.2 i hlow hhigh

theorem Span.zeros_empty (segments : List Nat) : Span.Zeros {} segments :=
  ⟨by simp, fun i hlow hhigh => by
    dsimp only at hhigh
    omega⟩

/-- `zeroes` finds a run of zeros: the longest one and the current one are runs of what has been read,
and the current one ends there. -/
theorem zeroes_zeros (segments : List Nat) : (zeroes segments).Zeros segments := by
  have hloop : ∀ (rest seen : List Nat) (longest current : Span), longest.Zeros seen →
      current.Zeros seen → (current.len = 0 ∨ current.start + current.len = seen.length) →
      (rest.foldl (fun (acc : Span × Span × Nat) segment =>
        if segment = 0 then
          let grown : Span := ⟨if acc.2.1.len = 0 then acc.2.2 else acc.2.1.start, acc.2.1.len + 1⟩
          (if acc.1.len < grown.len then grown else acc.1, grown, acc.2.2 + 1)
        else (acc.1, {}, acc.2.2 + 1)) (longest, current, seen.length)).1.Zeros (seen ++ rest) := by
    intro rest
    induction rest with
    | nil =>
      intro seen longest current hlongest _ _
      rw [List.append_nil]
      exact hlongest
    | cons segment rest ih =>
      intro seen longest current hlongest hcurrent hends
      have hlen : seen.length + 1 = (seen ++ [segment]).length := by simp
      have happend : seen ++ segment :: rest = (seen ++ [segment]) ++ rest := by simp
      rw [List.foldl_cons, happend]
      dsimp only
      split
      · rename_i hzero
        subst hzero
        have hgrown : Span.Zeros ⟨if current.len = 0 then seen.length else current.start, current.len + 1⟩
            (seen ++ [0]) := by
          refine ⟨?_, fun i hlow hhigh => ?_⟩
          · rw [List.length_append, List.length_singleton]
            dsimp only
            split <;> omega
          · dsimp only at hlow hhigh
            by_cases hi : i = seen.length
            · rw [hi]
              simp
            · have hin : current.start ≤ i ∧ i < current.start + current.len := by
                split at hlow <;> split at hhigh <;> omega
              rw [List.getElem?_append_left (by have := hcurrent.1; omega)]
              exact hcurrent.2 i hin.1 hin.2
        rw [hlen]
        refine ih (seen ++ [0]) _ _ ?_ hgrown (.inr ?_)
        · split
          · exact hgrown
          · exact hlongest.append [0]
        · rw [← hlen]
          dsimp only
          split <;> omega
      · rw [hlen]
        exact ih (seen ++ [segment]) _ _ (hlongest.append [segment]) (Span.zeros_empty _) (.inl rfl)
  exact hloop segments [] {} {} (Span.zeros_empty []) (Span.zeros_empty []) (.inl rfl)

/-- Without a run of zeros a list is what stands before and after it. -/
theorem Span.Zeros.split {span : Span} {segments : List Nat} (h : span.Zeros segments) :
    segments = segments.take span.start ++ List.replicate span.len 0 ++
      segments.drop (span.start + span.len) := by
  have hmiddle : (segments.drop span.start).take span.len = List.replicate span.len 0 := by
    refine List.ext_getElem? fun i => ?_
    rw [List.getElem?_take, List.getElem?_replicate, List.getElem?_drop]
    split
    · exact h.2 (span.start + i) (by omega) (by omega)
    · rfl
  rw [← hmiddle, List.append_assoc, ← List.drop_drop, List.take_append_drop, List.take_append_drop]

/-! ## IPv6 -/

theorem segments_lt (value : BitVec 128) : ∀ group ∈ segments value, group < 65536 :=
  fun group hgroup => mem_digits_lt (by decide) hgroup

theorem ofNat_segments (value : BitVec 128) : BitVec.ofNat 128 (ofDigits 65536 (segments value)) = value := by
  have hdigits : ofDigits 65536 (segments value) = value.toNat := ofDigits_digits value.isLt
  rw [hdigits, BitVec.ofNat_toNat, BitVec.setWidth_eq]

/-- A compressed text is read. -/
theorem readIpv6_compressed (head tail : List Nat) (hlen : head.length + tail.length ≤ 6)
    (hhead : ∀ group ∈ head, group < 65536) (htail : ∀ group ∈ tail, group < 65536) :
    readIpv6 (groupsText 0 head ++ ':' :: ':' :: groupsText 0 tail) =
      some (.ofNat 128 (ofDigits 65536
        (head ++ List.replicate (8 - head.length - tail.length) 0 ++ tail)), []) := by
  have hfirst := readGroups_text 8 0 head (by omega) hhead (atColon_cons (':' :: groupsText 0 tail))
    (.inr (.inr ⟨_, rfl⟩))
  have hsecond := readGroups_text (8 - (head.length + 1)) 0 tail (by omega) htail atColon_nil
    (.inr (.inl rfl))
  rw [List.append_nil] at hsecond
  unfold readIpv6
  rw [hfirst]
  dsimp only
  rw [if_neg (by omega), if_neg (by decide)]
  simp only [readChar, if_true, Option.bind_some, Option.map_some, hsecond]

theorem readIpv6_full {groups : List Nat} (hlen : groups.length = 8)
    (hlt : ∀ group ∈ groups, group < 65536) :
    readIpv6 (groupsText 0 groups) = some (.ofNat 128 (ofDigits 65536 groups), []) := by
  have hread := readGroups_text 8 0 groups (by omega) hlt atColon_nil (.inr (.inl rfl))
  rw [List.append_nil] at hread
  unfold readIpv6
  rw [hread]
  dsimp only
  rw [if_pos hlen]

/-- `::ffff:a.b.c.d` is read. -/
theorem readIpv6_mapped (ipv4 : BitVec 32) :
    readIpv6 (':' :: ':' :: 'f' :: 'f' :: 'f' :: 'f' :: ':' :: ipv4Text ipv4) =
      some (.ofNat 128 (0xffff * 2 ^ 32 + ipv4.toNat), []) := by
  have hfirst : readGroups 8 0 (':' :: ':' :: 'f' :: 'f' :: 'f' :: 'f' :: ':' :: ipv4Text ipv4) = (([], false), _) :=
    readGroups_stop 8 0 (.inr ⟨_, rfl⟩)
  have hipv4 : readIpv4 (ipv4Text ipv4) = some (ipv4, []) := by
    have h := readIpv4_text ipv4 (stops_nil 10)
    rwa [List.append_nil] at h
  have hend : readGroups 7 1 (':' :: ipv4Text ipv4) =
      (([ipv4.toNat / 65536, ipv4.toNat % 65536], true), []) := by
    rw [readGroups, if_pos (by decide), if_pos (by decide), readSeparator_succ, hipv4]
  have hffff : ('f' :: 'f' :: 'f' :: 'f' :: ':' :: ipv4Text ipv4) = hex 0xffff ++ ':' :: ipv4Text ipv4 := by
    have hhex : hex 0xffff = ['f', 'f', 'f', 'f'] := by decide
    rw [hhex]
    rfl
  have hsecond : readGroups 7 0 ('f' :: 'f' :: 'f' :: 'f' :: ':' :: ipv4Text ipv4) =
      (([0xffff, ipv4.toNat / 65536, ipv4.toNat % 65536], true), []) := by
    rw [hffff, readGroups, if_pos (by decide), if_pos (by decide), readSeparator_zero, readSeparator_zero,
      readIpv4_hex _ (atColon_cons _), readGroup (by decide) (atColon_cons _)]
    dsimp only
    rw [hend]
  unfold readIpv6
  rw [hfirst]
  dsimp only
  rw [if_neg (by decide), if_neg (by decide)]
  simp only [readChar, if_true, Option.bind_some, Option.map_some, List.length_nil, Nat.zero_add,
    Nat.add_one_sub_one, Nat.reduceSub, hsecond]
  have hnumber : ofDigits 65536 [0, 0, 0, 0, 0, 0xffff, ipv4.toNat / 65536, ipv4.toNat % 65536] =
      0xffff * 2 ^ 32 + ipv4.toNat := by
    simp only [ofDigits, List.foldl_cons, List.foldl_nil]
    omega
  show some (BitVec.ofNat 128 (ofDigits 65536
    [0, 0, 0, 0, 0, 0xffff, ipv4.toNat / 65536, ipv4.toNat % 65536]), []) = _
  rw [hnumber]

theorem readIpv6_text (value : BitVec 128) : readIpv6 (ipv6Text value) = some (value, []) := by
  unfold ipv6Text
  split
  · rename_i ipv4 hmapped
    unfold IpAddr.toIpv4Mapped at hmapped
    split at hmapped
    · rename_i hhigh
      cases hmapped
      have h := readIpv6_mapped (BitVec.ofNat 32 value.toNat)
      have hvalue : BitVec.ofNat 128 (0xffff * 2 ^ 32 + (BitVec.ofNat 32 value.toNat).toNat) = value := by
        apply BitVec.eq_of_toNat_eq
        have hlt := value.isLt
        rw [BitVec.toNat_ofNat, BitVec.toNat_ofNat]
        omega
      rw [hvalue] at h
      exact h
    · cases hmapped
  · dsimp only
    have hzeros := zeroes_zeros (segments value)
    have hlen : (segments value).length = 8 := length_digits 65536 8 value.toNat
    split
    · rename_i hrun
      have hbound := hzeros.1
      rw [hlen] at hbound
      have htake : ((segments value).take (zeroes (segments value)).start).length =
          (zeroes (segments value)).start := by
        rw [List.length_take, hlen]
        omega
      have hdrop : ((segments value).drop ((zeroes (segments value)).start +
          (zeroes (segments value)).len)).length =
          8 - ((zeroes (segments value)).start + (zeroes (segments value)).len) := by
        rw [List.length_drop, hlen]
      have hread := readIpv6_compressed ((segments value).take (zeroes (segments value)).start)
        ((segments value).drop ((zeroes (segments value)).start + (zeroes (segments value)).len)) (by omega) (fun group hgroup => segments_lt value group (List.take_subset _ _ hgroup))
        (fun group hgroup => segments_lt value group (List.drop_subset _ _ hgroup))
      have hcount : 8 - ((segments value).take (zeroes (segments value)).start).length -
          ((segments value).drop ((zeroes (segments value)).start + (zeroes (segments value)).len)).length =
          (zeroes (segments value)).len := by omega
      rw [hcount, ← hzeros.split, ofNat_segments] at hread
      rw [separated_hex, separated_hex, List.append_assoc]
      exact hread
    · rw [separated_hex, readIpv6_full hlen (segments_lt value), ofNat_segments]

/-- No IPv4 address is read off the front of an IPv6 text. -/
theorem readIpv4_ipv6Text (value : BitVec 128) : readIpv4 (ipv6Text value) = none := by
  have hcolon : ∀ rest, readIpv4 (':' :: rest) = none := fun rest => readIpv4_eq_none (by
    rw [List.dropWhile_cons_of_neg (by decide), List.head?_cons, ne_eq, Option.some.injEq]
    decide)
  have hgroups : ∀ groups rest, AtColon rest → readIpv4 (groupsText 0 groups ++ rest) = none := by
    intro groups rest hrest
    cases groups with
    | nil =>
      cases rest with
      | nil => rfl
      | cons c rest =>
        have hc : c = ':' := hrest c rfl
        rw [hc]
        exact hcolon rest
    | cons group groups =>
      rw [groupsText, List.append_assoc]
      exact readIpv4_hex group (atColon_groupsText 0 groups hrest)
  unfold ipv6Text
  split
  · exact hcolon _
  · dsimp only
    split
    · rw [separated_hex, List.append_assoc]
      exact hgroups _ _ (atColon_cons _)
    · have h := hgroups (segments value) [] atColon_nil
      rwa [List.append_nil, ← separated_hex] at h

/-- **An address is read from its text again.** -/
theorem IpAddr.parse_toText (ip : IpAddr) : IpAddr.parse ip.toText = some ip := by
  cases ip with
  | v4 value =>
    have h := readIpv4_text value (stops_nil 10)
    rw [List.append_nil] at h
    simp only [IpAddr.parse, IpAddr.toText, String.toList_ofList, h, Option.map_some, Option.some_or]
  | v6 value =>
    simp only [IpAddr.parse, IpAddr.toText, String.toList_ofList, readIpv4_ipv6Text, readIpv6_text,
      Option.map_none, Option.map_some, Option.none_or]

end Net
