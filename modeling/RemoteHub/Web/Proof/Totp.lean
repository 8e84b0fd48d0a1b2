import RemoteHub.Web.Kdbx
import RemoteHub.Web.Proof.Links

/-!
# Links of one-time passwords on both sides

Both sides read a link alike exactly if the texts that each has of the fields are ones it asks for and say
the same, or if each has a text it does not take. In a plain link, in which no field is told twice, in another
case or by an escaped name, the browser has the server's texts, decoded: there a link that the browser takes is
read alike exactly if its secret stands there unescaped and with all its digits, its algorithm unescaped and
its numbers in decimal digits (`link_read_alike`). Links from the settings of KeePass are plain
(`plain_timeOtp`).
-/

namespace Web.OneTime

open Totp (Algorithm Hmac Params Base32 stripPrefixIgnoreCase)
open Text (splitOnce split toAsciiLowercase toAsciiUppercase parseUnsigned)

variable {browser : Browser} {nopad : Base32} {link : String}

/-! ## Plain links -/

/-- The digits of a decimal number. -/
def IsDecimal (text : String) : Prop := text ≠ "" ∧ ∀ c ∈ text.toList, c.isDigit = true

/-- Decimal digits, with a plus sign before them or without. -/
def IsNumeral (text : String) : Prop :=
  IsDecimal text ∨ ∃ digits : String, text.toList = '+' :: digits.toList ∧ IsDecimal digits

/-- Nothing in the text stands for another character. -/
def Unescaped (text : String) : Prop := ∀ c ∈ text.toList, c ≠ '%' ∧ c ≠ '+'

instance (text : String) : Decidable (Unescaped text) :=
  inferInstanceAs (Decidable (∀ c ∈ text.toList, _))

def plusToSpace (text : String) : String := .ofList (text.toList.map fun c => if c = '+' then ' ' else c)

/-- A parameter's name and text. -/
def pairIn (piece : String) : String × String := (splitOnce '=' piece).getD (piece, "")

/-- The parameters of a text: what stands after its first question mark, cut at the ampersands. -/
def paramsOf (text : String) : List (String × String) :=
  (splitOnce '?' text).elim [] fun parts => (split '&' parts.2).map pairIn

/-- The parameters as the URL Standard has them: up to the fragment, without empty pieces, decoded. -/
def queryOf (decode : String → String) (text : String) : List (String × String) :=
  ((splitOnce '?' (.ofList (text.toList.takeWhile (· ≠ '#')))).elim [] fun parts =>
    ((split '&' parts.2).filter (· ≠ "")).map pairIn).map fun pair => (decode pair.1, decode pair.2)

/-- What is documented of the browser's functions, as far as links need it. -/
structure Standard (browser : Browser) (decode : String → String) : Prop where
  lower : LowersAscii browser.toLower
  upper : UppersAscii browser.toUpper
  /-- Decimal digits are read as their number, which is exact up to 2^53. -/
  number : ∀ text n, IsDecimal text → parseUnsigned (2 ^ 53) text = some n → browser.number text = some (n : ℚ)
  large : ∀ text q, IsDecimal text → parseUnsigned (2 ^ 53) text = none → browser.number text = some q →
    2 ^ 53 ≤ q
  /-- White space before a number is skipped. -/
  spaced : ∀ text : String, browser.number (.ofList (' ' :: text.toList)) = browser.number text
  params : ∀ link, IsLink link → (∀ c ∈ (Web.trim link).toList, ' ' ≤ c) →
    browser.searchParams (Web.trim link) = some (queryOf decode (Web.trim link))
  decode : ∀ s : String, (∀ c ∈ s.toList, c ≠ '%') → decode s = plusToSpace s

def fields : List String := ["secret", "algorithm", "digits", "period"]

/-- Nothing in the link is cut off, no field is told by another spelling of its name, and none twice. -/
structure Plain (link : String) : Prop where
  trims : Text.trim link = Web.trim link
  chars : ∀ c ∈ (Web.trim link).toList, ' ' ≤ c ∧ c ≠ '#'
  names : ∀ pair ∈ paramsOf (Web.trim link), Unescaped pair.1
  spelt : ∀ pair ∈ paramsOf (Web.trim link), toAsciiLowercase pair.1 ∈ fields → pair.1 ∈ fields
  ascii : ∀ pair ∈ paramsOf (Web.trim link), pair.1 ∈ fields → ∀ c ∈ pair.2.toList, c.toNat < 128
  once : ∀ field ∈ fields, ((paramsOf (Web.trim link)).filter (·.1 = field)).length ≤ 1

/-- The secret and the algorithm stand in the link as they are, the secret with all its digits, 80 bits of them
or more, and the numbers are in decimal digits. -/
structure Exact (link : String) : Prop where
  secret : ∀ text ∈ rawTexts link "secret", Unescaped text ∧ IsWhole (serverDigits text)
  algorithm : ∀ text ∈ rawTexts link "algorithm", Unescaped text
  digits : ∀ text ∈ rawTexts link "digits", IsNumeral text
  period : ∀ text ∈ rawTexts link "period", IsNumeral text

/-- The number that decimal digits write. -/
def decimalOf (text : String) : Nat := Nat.ofDigitChars 10 text.toList 0

theorem IsDecimal.unescaped {text : String} (h : IsDecimal text) : Unescaped text := by
  intro c hc
  have hdigit := h.2 c hc
  constructor
  all_goals
    rintro rfl
    exact absurd hdigit (by decide)

theorem IsDecimal.head_ne {text : String} (h : IsDecimal text) : text.toList.head? ≠ some '+' :=
  fun hhead => (h.unescaped '+' (List.mem_of_mem_head? hhead)).2 rfl

theorem parseUnsigned_decimal {text : String} (h : IsDecimal text) (max : Nat) :
    parseUnsigned max text = if decimalOf text ≤ max then some (decimalOf text) else none := by
  have hne : text.toList ≠ [] := fun hnil => h.1 (String.toList_eq_nil_iff.1 hnil)
  unfold parseUnsigned
  rw [if_neg h.head_ne, if_pos ⟨hne, List.all_eq_true.2 h.2⟩, Text.foldl_digits]
  rfl

theorem parseUnsigned_plus {text digits : String} (htext : text.toList = '+' :: digits.toList)
    (h : IsDecimal digits) (max : Nat) : parseUnsigned max text = parseUnsigned max digits := by
  have hhead : text.toList.head? = some '+' := by rw [htext, List.head?_cons]
  unfold parseUnsigned
  rw [if_pos hhead, if_neg h.head_ne, htext, List.tail_cons]

theorem isNumeral_of_parseUnsigned {text : String} {max n : Nat} (h : parseUnsigned max text = some n) :
    IsNumeral text := by
  unfold parseUnsigned at h
  by_cases hhead : text.toList.head? = some '+'
  · obtain ⟨digits, hdigits⟩ := List.head?_eq_some_iff.1 hhead
    simp only [hdigits, List.tail_cons, Option.ite_none_right_eq_some] at h
    refine .inr ⟨.ofList digits, by rw [hdigits, String.toList_ofList], fun hempty => h.1.1 ?_, ?_⟩
    · rw [← String.toList_ofList (l := digits), hempty]
      rfl
    · rw [String.toList_ofList]
      exact List.all_eq_true.1 h.1.2
  · simp only [if_neg hhead, Option.ite_none_right_eq_some] at h
    exact .inl ⟨fun hempty => h.1.1 (String.toList_eq_nil_iff.2 hempty), List.all_eq_true.1 h.1.2⟩

theorem map_plus {s : List Char} (h : ∀ c ∈ s, c ≠ '+') :
    s.map (fun c => if c = '+' then ' ' else c) = s :=
  (List.map_congr_left fun c hc => if_neg (h c hc)).trans (List.map_id' s)

/-- What the server takes is not escaped. -/
theorem IsBase32.unescaped {text : String} (h : IsBase32 (serverDigits text)) : Unescaped text := by
  have hkept : ∀ c ∈ text.toList, Text.isWhitespace c = false → c ≠ '-' → c ≠ '=' →
      c.toUpper ∈ Base32.alphabet := by
    intro c hc hblank hdash hpad
    refine h.alphabet _ (List.mem_map_of_mem (List.mem_filter.2 ⟨hc, ?_⟩))
    simp [hblank, hdash, hpad]
  refine fun c hc => ⟨?_, ?_⟩
  all_goals
    rintro rfl
    exact absurd (hkept _ hc (by decide) (by decide) (by decide)) (by decide)

theorem unescaped_of_algorithm {text : String} (h : toAsciiUppercase text ∈ algorithmNames) :
    Unescaped text := by
  have hall : ∀ name ∈ algorithmNames, ∀ c ∈ name.toList, c ≠ '%' ∧ c ≠ '+' := by decide
  have hupper : ∀ c ∈ text.toList, c.toUpper ≠ '%' ∧ c.toUpper ≠ '+' := by
    intro c hc
    refine hall _ h _ ?_
    rw [toAsciiUppercase, String.toList_ofList]
    exact List.mem_map_of_mem hc
  refine fun c hc => ⟨?_, ?_⟩
  all_goals
    rintro rfl
    exact absurd (hupper _ hc) (by decide)

section
variable {decode : String → String}

theorem Standard.decode_self (h : Standard browser decode) {text : String} (htext : Unescaped text) :
    decode text = text := by
  rw [h.decode text fun c hc => (htext c hc).1, plusToSpace, map_plus fun c hc => (htext c hc).2,
    String.ofList_toList]

/-- A number that counts is read alike if it is in decimal digits. -/
theorem Standard.decimal_eq (h : Standard browser decode) {text : String} {max n : Nat} (htext : IsDecimal text)
    (hn : n ≤ 300) (hle : 300 ≤ max) :
    parseUnsigned max text = some n ↔ browser.number text = some (n : ℚ) := by
  have hmaxd := parseUnsigned_decimal htext max
  have hexact := parseUnsigned_decimal htext (2 ^ 53)
  by_cases hsmall : decimalOf text ≤ 2 ^ 53
  · rw [if_pos hsmall] at hexact
    rw [h.number text _ htext hexact, hmaxd, Option.some.injEq, Nat.cast_inj]
    by_cases hfits : decimalOf text ≤ max
    · rw [if_pos hfits, Option.some.injEq]
    · rw [if_neg hfits]
      exact iff_of_false (fun heq => by cases heq) (by omega)
  · rw [if_neg hsmall] at hexact
    refine iff_of_false (fun heq => ?_) fun heq => ?_
    · rw [hmaxd] at heq
      split at heq
      · cases heq
        omega
      · cases heq
    · have hlarge := h.large text n htext hexact heq
      have hcast : (n : ℚ) ≤ 300 := by exact_mod_cast hn
      norm_num at hlarge
      linarith

/-- A plus sign before the digits makes no difference to either side. -/
theorem Standard.numeral (h : Standard browser decode) {text : String} (htext : IsNumeral text) :
    ∃ digits, IsDecimal digits ∧ (∀ max, parseUnsigned max text = parseUnsigned max digits) ∧
      browser.number (decode text) = browser.number digits := by
  rcases htext with hdecimal | ⟨digits, hplus, hdecimal⟩
  · exact ⟨text, hdecimal, fun max => rfl, congrArg _ (h.decode_self hdecimal.unescaped)⟩
  · have hpercent : ∀ c ∈ text.toList, c ≠ '%' := by
      rw [hplus]
      exact List.forall_mem_cons.2 ⟨by decide, fun c hc => (hdecimal.unescaped c hc).1⟩
    have hdecoded : decode text = .ofList (' ' :: digits.toList) := by
      rw [h.decode text hpercent, plusToSpace, hplus, List.map_cons, if_pos rfl,
        map_plus fun c hc => (hdecimal.unescaped c hc).2]
    exact ⟨digits, hdecimal, parseUnsigned_plus hplus hdecimal, by rw [hdecoded, h.spaced]⟩

theorem Standard.number_eq (h : Standard browser decode) {text : String} {max n : Nat} (htext : IsNumeral text)
    (hn : n ≤ 300) (hle : 300 ≤ max) :
    parseUnsigned max text = some n ↔ browser.number (decode text) = some (n : ℚ) := by
  obtain ⟨digits, hdecimal, hparse, hnumber⟩ := h.numeral htext
  rw [hparse, hnumber]
  exact h.decimal_eq hdecimal hn hle

theorem splitOnce_append {c : Char} {a s : List Char} (h : c ∉ a) :
    (splitOnce c (.ofList (a ++ s))).map (·.2) = (splitOnce c (.ofList s)).map (·.2) := by
  by_cases hs : c ∈ s
  · obtain ⟨before, after, rfl, hbefore⟩ := List.eq_append_cons_of_mem hs
    have hboth : c ∉ a ++ before := fun hmem => (List.mem_append.1 hmem).elim h hbefore
    have hlist : (String.ofList (a ++ (before ++ c :: after))).toList = (a ++ before) ++ c :: after := by
      rw [String.toList_ofList, List.append_assoc]
    rw [Text.splitOnce_of_append hboth hlist, Text.splitOnce_of_append hbefore String.toList_ofList]
    rfl
  · have hboth : c ∉ a ++ s := fun hmem => (List.mem_append.1 hmem).elim h hs
    have hlist : c ∉ (String.ofList (a ++ s)).toList := String.toList_ofList.symm ▸ hboth
    have hrest : c ∉ (String.ofList s).toList := String.toList_ofList.symm ▸ hs
    rw [Text.splitOnce_of_notMem hlist, Text.splitOnce_of_notMem hrest]

/-- The server's texts, from the whole link. -/
theorem rawTexts_eq (hlink : IsLink link) (field : String) : rawTexts link field =
    ((paramsOf (Text.trim link)).filter fun pair => toAsciiLowercase pair.1 = field).map (·.2) := by
  obtain ⟨rest, hrest⟩ := hlink.server
  have hstrip := hrest
  rw [stripPrefixIgnoreCase] at hstrip
  split at hstrip
  · rename_i hsame
    have hdrop := Option.some.inj hstrip
    have hquestion : '?' ∉ (Text.trim link).toList.take "otpauth://totp/".length := by
      intro hmem
      have hlower := congrArg String.toList (of_decide_eq_true hsame)
      rw [toAsciiLowercase, String.toList_ofList, String.toList_ofList] at hlower
      have hmem' : '?'.toLower ∈ (toAsciiLowercase "otpauth://totp/").toList :=
        hlower ▸ List.mem_map_of_mem hmem
      exact absurd hmem' (by decide)
    have hparts := splitOnce_append (s := (Text.trim link).toList.drop "otpauth://totp/".length) hquestion
    rw [List.take_append_drop, String.ofList_toList, hdrop] at hparts
    have hpair : ∀ piece, pairOf piece = (toAsciiLowercase (pairIn piece).1, (pairIn piece).2) := by
      intro piece
      rw [pairOf, pairIn]
    have hraw : rawParams link =
        ((splitOnce '?' rest).map (·.2)).map fun query => (split '&' query).map pairOf := by
      rw [rawParams, hrest, Option.bind_some, Option.map_map]
      rfl
    have hparams : paramsOf (Text.trim link) =
        ((splitOnce '?' rest).map (·.2)).elim [] fun query => (split '&' query).map pairIn := by
      rw [← hparts, paramsOf]
      cases splitOnce '?' (Text.trim link) <;> rfl
    rw [rawTexts, hraw, hparams]
    cases (splitOnce '?' rest).map (·.2) with
    | none => rfl
    | some query =>
      rw [Option.map_some, Option.elim_some, Option.elim_some, valuesOf, List.filter_map, List.map_map,
        List.filter_map, List.map_map]
      simp only [Function.comp_def, hpair]
  · cases hstrip

theorem fields_lower : ∀ field ∈ fields, toAsciiLowercase field = field ∧ field ≠ "" := by decide

/-- Empty pieces make no difference, and decoding none to names. -/
theorem get_decoded {field : String} {pieces : List String} (hfield : field ≠ "")
    (hnames : ∀ pair ∈ pieces.map pairIn, decode pair.1 = pair.1) :
    get (((pieces.filter (· ≠ "")).map pairIn).map fun pair => (decode pair.1, decode pair.2)) field =
      ((pieces.map pairIn).find? (·.1 = field)).map fun pair => decode pair.2 := by
  rw [get]
  induction pieces with
  | nil => rfl
  | cons piece pieces ih =>
    rw [List.map_cons, List.forall_mem_cons] at hnames
    have hrest := ih hnames.2
    by_cases hempty : piece = ""
    · have hother : (pairIn piece).1 ≠ field := by
        rw [hempty]
        exact Ne.symm hfield
      rw [List.filter_cons_of_neg (by simpa using hempty), hrest, List.map_cons,
        List.find?_cons_of_neg (by simpa using hother)]
    · rw [List.filter_cons_of_pos (by simpa using hempty), List.map_cons, List.map_cons, List.map_cons]
      by_cases hsame : (pairIn piece).1 = field
      · rw [List.find?_cons_of_pos (by simpa [hnames.1] using hsame),
          List.find?_cons_of_pos (by simpa using hsame), Option.map_some, Option.map_some]
      · rw [List.find?_cons_of_neg (by simpa [hnames.1] using hsame),
          List.find?_cons_of_neg (by simpa using hsame)]
        exact hrest

/-- The browser's text of a field in a plain link is what stands there, decoded. -/
theorem Standard.webText_eq (h : Standard browser decode) (hlink : IsLink link) (hplain : Plain link)
    {field : String} (hfield : field ∈ fields) : webText browser link field =
      ((paramsOf (Web.trim link)).find? (·.1 = field)).map fun pair => decode pair.2 := by
  have hall : (Web.trim link).toList.takeWhile (· ≠ '#') = (Web.trim link).toList :=
    List.takeWhile_eq_self_iff.2 fun c hc => decide_eq_true (hplain.chars c hc).2
  have hnames := hplain.names
  rw [webText, h.params link hlink fun c hc => (hplain.chars c hc).1, queryOf, hall, String.ofList_toList,
    Option.bind_some]
  rw [paramsOf] at hnames ⊢
  cases hparts : splitOnce '?' (Web.trim link) with
  | none => rfl
  | some parts =>
    rw [hparts] at hnames
    exact get_decoded (fields_lower field hfield).2 fun pair hpair => h.decode_self (hnames pair hpair)

/-- The server's, of which there is no other spelling. -/
theorem Plain.rawTexts_spelt (hlink : IsLink link) (hplain : Plain link) {field : String}
    (hfield : field ∈ fields) :
    rawTexts link field = ((paramsOf (Web.trim link)).filter (·.1 = field)).map (·.2) := by
  rw [rawTexts_eq hlink, hplain.trims]
  refine congrArg _ (List.filter_congr fun pair hpair => ?_)
  have hiff : toAsciiLowercase pair.1 = field ↔ pair.1 = field := by
    constructor
    · intro hsame
      have hmem := hplain.spelt pair hpair (hsame ▸ hfield)
      rw [← hsame, (fields_lower _ hmem).1]
    · rintro rfl
      exact (fields_lower _ hfield).1
  simp only [hiff]

/-- The browser has the server's texts of a plain link, decoded. -/
theorem Standard.texts_eq (h : Standard browser decode) (hlink : IsLink link) (hplain : Plain link)
    {field : String} (hfield : field ∈ fields) :
    (webText browser link field).toList = (rawTexts link field).map decode := by
  rw [h.webText_eq hlink hplain hfield, hplain.rawTexts_spelt hlink hfield, ← List.head?_filter]
  have honce := hplain.once field hfield
  generalize (paramsOf (Web.trim link)).filter (·.1 = field) = pairs at honce ⊢
  match pairs, honce with
  | [], _ => rfl
  | [pair], _ => rfl

theorem Plain.ascii_text (hplain : Plain link) (hlink : IsLink link) {field text : String}
    (hfield : field ∈ fields) (h : text ∈ rawTexts link field) : ∀ c ∈ text.toList, c.toNat < 128 := by
  rw [hplain.rawTexts_spelt hlink hfield, List.mem_map] at h
  obtain ⟨pair, hpair, rfl⟩ := h
  obtain ⟨hmem, hname⟩ := List.mem_filter.1 hpair
  exact hplain.ascii pair hmem (of_decide_eq_true hname ▸ hfield)

theorem Standard.secret_iff (h : Standard browser decode) {text : String}
    (hascii : ∀ c ∈ text.toList, c.toNat < 128) :
    serverAsks.secret text ↔
      (webAsks browser).secret (decode text) ∧ Unescaped text ∧ IsWhole (serverDigits text) := by
  have hsame : Unescaped text → webDigits browser (decode text) = serverDigits text := by
    intro hunescaped
    rw [h.decode_self hunescaped, digits_ascii h.upper hascii]
  constructor
  · rintro ⟨hbase32, hwhole⟩
    refine ⟨?_, hbase32.unescaped, hwhole⟩
    rw [← hsame hbase32.unescaped] at hbase32
    exact hbase32
  · rintro ⟨hbase32, hunescaped, hwhole⟩
    exact ⟨hsame hunescaped ▸ hbase32, hwhole⟩

theorem Standard.algorithm_iff (h : Standard browser decode) {text : String}
    (hascii : ∀ c ∈ text.toList, c.toNat < 128) :
    serverAsks.algorithm text ↔ (webAsks browser).algorithm (decode text) ∧ Unescaped text := by
  have hsame : Unescaped text → browser.toUpper (decode text) = toAsciiUppercase text := by
    intro hunescaped
    rw [h.decode_self hunescaped, h.upper text hascii]
  dsimp only [serverAsks, webAsks]
  constructor
  · intro hname
    have hunescaped := unescaped_of_algorithm hname
    rw [hsame hunescaped]
    exact ⟨hname, hunescaped⟩
  · rintro ⟨hname, hunescaped⟩
    rwa [hsame hunescaped] at hname

theorem Standard.digits_iff (h : Standard browser decode) {text : String} :
    serverAsks.digits text ↔ (webAsks browser).digits (decode text) ∧ IsNumeral text := by
  constructor
  · rintro ⟨n, hn, hlow, hhigh⟩
    have htext := isNumeral_of_parseUnsigned hn
    exact ⟨⟨n, by simp; omega, (h.number_eq htext (by omega) (by decide)).1 hn⟩, htext⟩
  · rintro ⟨⟨n, hmem, hn⟩, htext⟩
    have hrange : 6 ≤ n ∧ n ≤ 8 := by
      simp only [List.mem_cons, List.not_mem_nil, or_false] at hmem
      omega
    exact ⟨n, (h.number_eq htext (by omega) (by decide)).2 hn, hrange⟩

theorem Standard.period_iff (h : Standard browser decode) {text : String} :
    serverAsks.period text ↔ (webAsks browser).period (decode text) ∧ IsNumeral text := by
  constructor
  · rintro ⟨n, hn, hlow, hhigh⟩
    have htext := isNumeral_of_parseUnsigned hn
    have hnumber := (h.number_eq htext hhigh (by decide)).1 hn
    exact ⟨⟨n, hnumber, by exact_mod_cast hlow, by exact_mod_cast hhigh⟩, htext⟩
  · rintro ⟨⟨p, hp, hlow, hhigh⟩, htext⟩
    obtain ⟨digits, hdecimal, -, hnumber⟩ := h.numeral htext
    have hdigits : browser.number digits = some p := hnumber.symm.trans hp
    have hexact := parseUnsigned_decimal hdecimal (2 ^ 53)
    have hsmall : decimalOf digits ≤ 2 ^ 53 := by
      by_contra hbig
      rw [if_neg hbig] at hexact
      have hlarge := h.large digits p hdecimal hexact hdigits
      norm_num at hlarge
      linarith
    rw [if_pos hsmall] at hexact
    have hvalue : (decimalOf digits : ℚ) = p :=
      Option.some.inj ((h.number digits _ hdecimal hexact).symm.trans hdigits)
    have hlow' : 1 ≤ decimalOf digits := by exact_mod_cast hvalue.symm ▸ hlow
    have hhigh' : decimalOf digits ≤ 300 := by exact_mod_cast hvalue.symm ▸ hhigh
    exact ⟨decimalOf digits, (h.number_eq htext hhigh' (by decide)).2 (hvalue.symm ▸ hp), hlow', hhigh'⟩

theorem Standard.web_takes_iff (h : Standard browser decode) (hlink : IsLink link) (hplain : Plain link) :
    WebTakes browser link ↔ Takes (webAsks browser) fun field => (rawTexts link field).map decode := by
  rw [WebTakes, takes_iff, takes_iff, h.texts_eq hlink hplain (by decide), h.texts_eq hlink hplain (by decide),
    h.texts_eq hlink hplain (by decide), h.texts_eq hlink hplain (by decide)]

/-- Of a plain link the server takes what the browser takes and is exact. -/
theorem Standard.server_takes_iff (h : Standard browser decode) (hlink : IsLink link) (hplain : Plain link) :
    ServerTakes link ↔ WebTakes browser link ∧ Exact link := by
  have hsecret : ∀ text ∈ rawTexts link "secret", serverAsks.secret text ↔
      (webAsks browser).secret (decode text) ∧ Unescaped text ∧ IsWhole (serverDigits text) :=
    fun text htext => h.secret_iff (hplain.ascii_text hlink (by decide) htext)
  have halgorithm : ∀ text ∈ rawTexts link "algorithm", serverAsks.algorithm text ↔
      (webAsks browser).algorithm (decode text) ∧ Unescaped text :=
    fun text htext => h.algorithm_iff (hplain.ascii_text hlink (by decide) htext)
  rw [h.web_takes_iff hlink hplain, ServerTakes]
  constructor
  · intro htakes
    have hs := fun text htext => (hsecret text htext).1 (htakes.secret text htext)
    have ha := fun text htext => (halgorithm text htext).1 (htakes.algorithm text htext)
    have hd := fun text htext => h.digits_iff.1 (htakes.digits text htext)
    have hp := fun text htext => h.period_iff.1 (htakes.period text htext)
    refine ⟨⟨fun hnil => htakes.some (List.map_eq_nil_iff.1 hnil), ?_, ?_, ?_, ?_⟩,
      fun text ht => (hs text ht).2, fun text ht => (ha text ht).2, fun text ht => (hd text ht).2,
      fun text ht => (hp text ht).2⟩
    · exact List.forall_mem_map.2 fun text ht => (hs text ht).1
    · exact List.forall_mem_map.2 fun text ht => (ha text ht).1
    · exact List.forall_mem_map.2 fun text ht => (hd text ht).1
    · exact List.forall_mem_map.2 fun text ht => (hp text ht).1
  · rintro ⟨htakes, hexact⟩
    have hs := List.forall_mem_map.1 htakes.secret
    have ha := List.forall_mem_map.1 htakes.algorithm
    have hd := List.forall_mem_map.1 htakes.digits
    have hp := List.forall_mem_map.1 htakes.period
    exact ⟨fun hnil => htakes.some (List.map_eq_nil_iff.2 hnil),
      fun text ht => (hsecret text ht).2 ⟨hs text ht, hexact.secret text ht⟩,
      fun text ht => (halgorithm text ht).2 ⟨ha text ht, hexact.algorithm text ht⟩,
      fun text ht => h.digits_iff.2 ⟨hd text ht, hexact.digits text ht⟩,
      fun text ht => h.period_iff.2 ⟨hp text ht, hexact.period text ht⟩⟩

/-- What both take of a plain link says the same. -/
theorem Standard.saySame (h : Standard browser decode) (hlink : IsLink link) (hplain : Plain link)
    (hserver : ServerTakes link) : SaySame browser link := by
  have hlast : ∀ field ∈ fields, webText browser link field = (rawTexts link field).getLast?.map decode := by
    intro field hfield
    rw [← List.getLast?_map, ← h.texts_eq hlink hplain hfield]
    cases webText browser link field <;> rfl
  refine ⟨?_, ?_, ?_, ?_⟩
  · rw [hlast _ (by decide)]
    cases htext : (rawTexts link "secret").getLast? with
    | none => rfl
    | some text =>
      have hin := List.mem_of_getLast? htext
      rw [Option.map_some, Option.map_some, Option.map_some, h.decode_self (hserver.secret text hin).1.unescaped,
        digits_ascii h.upper (hplain.ascii_text hlink (by decide) hin)]
  · rw [hlast _ (by decide)]
    cases htext : (rawTexts link "algorithm").getLast? with
    | none =>
      rw [Option.map_none, Option.getD_none, upper_sha1 h.upper]
      decide
    | some text =>
      have hin := List.mem_of_getLast? htext
      rw [Option.map_some, Option.getD_some, Option.getD_some,
        h.decode_self (unescaped_of_algorithm (hserver.algorithm text hin)),
        h.upper text (hplain.ascii_text hlink (by decide) hin)]
  · rw [hlast _ (by decide)]
    cases htext : (rawTexts link "digits").getLast? with
    | none => rfl
    | some text =>
      obtain ⟨n, hn, -, hhigh⟩ := hserver.digits text (List.mem_of_getLast? htext)
      have hnumber := (h.number_eq (isNumeral_of_parseUnsigned hn) (by omega) (by decide)).1 hn
      rw [Option.map_some, Option.elim_some, Option.elim_some, hn, hnumber, Option.map_some]
  · rw [hlast _ (by decide)]
    cases htext : (rawTexts link "period").getLast? with
    | none => rfl
    | some text =>
      obtain ⟨n, hn, -, hhigh⟩ := hserver.period text (List.mem_of_getLast? htext)
      have hnumber := (h.number_eq (isNumeral_of_parseUnsigned hn) hhigh (by decide)).1 hn
      rw [Option.map_some, Option.elim_some, Option.elim_some, hn, hnumber, Option.map_some]

theorem Standard.alike_iff (h : Standard browser decode) (hlink : IsLink link) (hplain : Plain link) :
    Alike browser link ↔ (WebTakes browser link → Exact link) := by
  rw [Alike, h.server_takes_iff hlink hplain]
  constructor
  · rintro (⟨hboth, -⟩ | ⟨-, hnot⟩) hweb
    · exact hboth.2
    · exact absurd hweb hnot
  · intro hexact
    by_cases hweb : WebTakes browser link
    · have hboth : WebTakes browser link ∧ Exact link := ⟨hweb, hexact hweb⟩
      exact .inl ⟨hboth, hweb, h.saySame hlink hplain ((h.server_takes_iff hlink hplain).2 hboth)⟩
    · exact .inr ⟨fun hboth => hweb hboth.1, hweb⟩

end

/-! ## Links from KeePass -/

section
open Kdbx (timeOtp timeOtpQuery setting)

variable {lower : String → String}

theorem setting_keys (settings : List Kdbx.Field) (key name : String) (f : String → String) :
    ((setting lower settings key name f).map (·.1)).Sublist [key] := by
  simp only [setting]
  split
  · exact List.nil_sublist _
  · exact List.Sublist.refl _

theorem timeOtpQuery_keys (settings : List Kdbx.Field) (secret : String) :
    ((timeOtpQuery lower settings secret).map (·.1)).Sublist fields := by
  rw [timeOtpQuery, List.map_append, List.map_append, List.map_cons]
  exact (((setting_keys settings "algorithm" _ _).cons_cons "secret").append
    (setting_keys settings "digits" _ _)).append (setting_keys settings "period" _ _)

theorem timeOtp_chars {settings : List Kdbx.Field} {secret : String} {c : Char}
    (h : c ∈ (timeOtp lower settings secret).toList) : 0x25 ≤ c.toNat ∧ c.toNat < 0x7f := by
  have hstart : ∀ c ∈ "otpauth://totp/entry?".toList, 0x25 ≤ c.toNat ∧ c.toNat < 0x7f := by decide
  unfold timeOtp at h
  rw [String.toList_append, List.mem_append] at h
  rcases h with h | h
  · exact hstart c h
  · rcases UrlEncoded.mem_serialize h with hwritten | rfl | rfl
    · exact ⟨hwritten.range.1, hwritten.range.2.1⟩
    · decide
    · decide

theorem paramsOf_timeOtp (settings : List Kdbx.Field) (secret : String) :
    paramsOf (timeOtp lower settings secret) = (timeOtpQuery lower settings secret).map fun pair =>
      (pair.1, .ofList (UrlEncoded.encode pair.2)) := by
  have hfields : ∀ field ∈ fields, String.ofList (UrlEncoded.encode field) = field := by decide +kernel
  have hquery : (timeOtp lower settings secret).toList = "otpauth://totp/entry".toList ++
      '?' :: (UrlEncoded.serialize (timeOtpQuery lower settings secret)).toList := by
    unfold timeOtp
    rw [String.toList_append]
    rfl
  have hpair : ∀ pair, pairIn (UrlEncoded.part pair) =
      (.ofList (UrlEncoded.encode pair.1), .ofList (UrlEncoded.encode pair.2)) := by
    intro pair
    rw [pairIn, UrlEncoded.splitOnce_part, Option.getD_some]
  obtain ⟨pairs, hcons⟩ : ∃ pairs, timeOtpQuery lower settings secret = ("secret", secret) :: pairs :=
    ⟨_, by rw [timeOtpQuery, List.cons_append, List.cons_append]⟩
  have hkeys : (timeOtpQuery lower settings secret).map (·.1) ⊆ fields :=
    (timeOtpQuery_keys settings secret).subset
  rw [paramsOf, Text.splitOnce_of_append (by decide) hquery, Option.elim_some]
  dsimp only
  rw [String.ofList_toList]
  rw [hcons] at hkeys ⊢
  rw [UrlEncoded.split_serialize, List.map_map]
  refine List.map_congr_left fun pair hmem => ?_
  rw [Function.comp_apply, hpair, hfields pair.1 (hkeys (List.mem_map_of_mem hmem))]

/-- A link from the settings of KeePass is plain. -/
theorem plain_timeOtp (settings : List Kdbx.Field) (secret : String) :
    Plain (timeOtp lower settings secret) := by
  have hblank : ∀ c ∈ (timeOtp lower settings secret).toList, Text.isWhitespace c = false := by
    intro c hc
    have hrange := timeOtp_chars hc
    rw [Text.isWhitespace]
    simp
    omega
  have hspace : ∀ c ∈ (timeOtp lower settings secret).toList, isWhitespace c = false := fun c hc => by
    rw [← isWhitespace_ascii (Nat.lt_of_lt_of_le (timeOtp_chars hc).2 (by decide))]
    exact hblank c hc
  have hweb : Web.trim (timeOtp lower settings secret) = timeOtp lower settings secret := by
    rw [Web.trim, Trim.trimBy_eq_self, String.ofList_toList]
    exact ⟨fun c hc => hspace c (List.mem_of_mem_head? hc), fun c hc => hspace c (List.mem_of_mem_getLast? hc)⟩
  have hkeys : ((timeOtpQuery lower settings secret).map (·.1)).Sublist fields :=
    timeOtpQuery_keys settings secret
  have hmem : ∀ pair ∈ paramsOf (timeOtp lower settings secret), pair.1 ∈ fields ∧
      ∀ c ∈ pair.2.toList, c.toNat < 128 := by
    rw [paramsOf_timeOtp]
    refine List.forall_mem_map.2 fun pair hpair => ⟨?_, fun c hc => ?_⟩
    · have hkey : pair.1 ∈ (timeOtpQuery lower settings secret).map (·.1) := List.mem_map_of_mem hpair
      exact hkeys.subset hkey
    · rw [String.toList_ofList] at hc
      exact Nat.lt_of_lt_of_le (UrlEncoded.written_of_mem hc).range.2.1 (by decide)
  have hnames : ∀ field ∈ fields, Unescaped field := by decide
  constructor
  all_goals rw [hweb]
  · exact Text.trim_eq_self hblank
  · intro c hc
    have hrange := timeOtp_chars hc
    refine ⟨?_, ?_⟩
    · rw [Char.le_def, UInt32.le_iff_toNat_le]
      exact Nat.le_trans (by decide) hrange.1
    · rintro rfl
      exact absurd hrange.1 (by decide)
  · exact fun pair hpair => hnames _ (hmem pair hpair).1
  · exact fun pair hpair _ => (hmem pair hpair).1
  · exact fun pair hpair _ => (hmem pair hpair).2
  · intro field _
    have hnodup : ((timeOtpQuery lower settings secret).map (·.1)).Nodup := hkeys.nodup (by decide)
    have hcount := List.nodup_iff_count.1 hnodup field
    rw [paramsOf_timeOtp, List.filter_map, List.length_map]
    rw [List.count_eq_countP, List.countP_map, List.countP_eq_length_filter] at hcount
    exact hcount

end

/-! ## Codes -/

/-- Four bytes put together by shifts. -/
theorem shifted_bytes {a b c d : Nat} (hb : b < 256) (hc : c < 256) (hd : d < 256) :
    ((a &&& 0x7f) <<< 24) ||| (b <<< 16) ||| (c <<< 8) ||| d =
      a % 128 * 2 ^ 24 + b * 2 ^ 16 + c * 2 ^ 8 + d := by
  have hmask : a &&& 0x7f = a % 128 := Nat.and_two_pow_sub_one_eq_mod a 7
  have hor : ∀ x y n : Nat, y < 2 ^ n → (x <<< n) ||| y = x * 2 ^ n + y := by
    intro x y n hy
    rw [← Nat.shiftLeft_add_eq_or_of_lt hy, Nat.shiftLeft_eq]
  have hstep : ((a % 128) <<< 24) ||| (b <<< 16) ||| (c <<< 8) ||| d =
      ((a % 128 * 2 ^ 8 + b) * 2 ^ 8 + c) * 2 ^ 8 + d := by
    rw [← hor _ d 8 hd, ← hor _ c 8 hc, ← hor _ b 8 hb]
    simp only [Nat.shiftLeft_or_distrib, ← Nat.shiftLeft_add]
  rw [hmask, hstep]
  omega

theorem totpCode_eq {hmac : Algorithm → Hmac} {web : TotpParams} {server : Params}
    (hsecret : web.secret = server.secret) (halgorithm : web.algorithm = server.algorithm)
    (hdigits : web.digits = server.digits) (hperiod : web.period = server.period) (unixSeconds : Nat) :
    totpCode hmac web unixSeconds = (server.codeAt hmac unixSeconds).1 := by
  have hcounter : ⌊(unixSeconds : ℚ) / web.period⌋.toNat = unixSeconds / server.period := by
    rw [hperiod, Rat.floor_natCast_div_natCast]
    exact Int.toNat_natCast _
  have hoffset : ∀ n : Nat, n &&& 0x0f = n % 16 := fun n => Nat.and_two_pow_sub_one_eq_mod n 4
  have hbyte : ∀ b : UInt8, b.toNat < 256 := fun b => b.toNat_lt
  rw [totpCode, Params.codeAt, hcounter, hsecret, halgorithm, hdigits]
  dsimp only
  rw [hoffset, shifted_bytes (hbyte _) (hbyte _) (hbyte _)]

/-! ## Both sides -/

/-- Both sides accept a link or neither does, as the same, and make the same codes of it. -/
structure ReadAlike (browser : Browser) (nopad : Base32) (hmac : Algorithm → Hmac) (link : String) : Prop where
  accepted : (parseTotp browser link).isSome = (Params.parse nopad link).isSome
  same : ∀ web server, parseTotp browser link = some web → Params.parse nopad link = some server →
    web.secret = server.secret ∧ web.algorithm = server.algorithm ∧ web.digits = server.digits ∧
      web.period = server.period
  codes : ∀ web server, parseTotp browser link = some web → Params.parse nopad link = some server →
    ∀ unixSeconds, totpCode hmac web unixSeconds = (server.codeAt hmac unixSeconds).1

theorem Reading.complete_iff {r : Reading} : r.Complete ↔
    ∃ secret algorithm digits period, r = ⟨some secret, some algorithm, some digits, some period⟩ := by
  obtain ⟨secret, algorithm, digits, period⟩ := r
  cases secret <;> cases algorithm <;> cases digits <;> cases period <;> simp [Complete]

/-- The server accepts a link of which it reads every field. -/
theorem server_complete (hlink : IsLink link) :
    (serverReading nopad link).Complete ↔ (Params.parse nopad link).isSome = true := by
  rw [Option.isSome_iff_exists]
  constructor
  · intro h
    obtain ⟨secret, algorithm, digits, period, hreading⟩ := Reading.complete_iff.1 h
    obtain ⟨n, hn⟩ : ∃ n : Nat, (n : ℚ) = period := by
      have hperiod := congrArg Reading.period hreading
      dsimp only [serverReading] at hperiod
      obtain ⟨n, -, hn⟩ := Option.map_eq_some_iff.1 hperiod
      exact ⟨n, hn⟩
    exact ⟨⟨secret, algorithm, digits, n⟩, (parse_eq hlink).2 (by rw [hreading, hn])⟩
  · rintro ⟨p, hp⟩
    exact Reading.complete_iff.2 ⟨_, _, _, _, (parse_eq hlink).1 hp⟩

theorem web_complete (hlower : LowersAscii browser.toLower) (hempty : browser.toUpper "" = "")
    (hlink : IsLink link) : (webReading browser link).Complete ↔ (parseTotp browser link).isSome = true := by
  rw [Option.isSome_iff_exists]
  constructor
  · intro h
    obtain ⟨secret, algorithm, digits, period, hreading⟩ := Reading.complete_iff.1 h
    exact ⟨⟨secret, algorithm, digits, period⟩, (parseTotp_eq hlower hempty hlink).2 hreading⟩
  · rintro ⟨p, hp⟩
    exact Reading.complete_iff.2 ⟨_, _, _, _, (parseTotp_eq hlower hempty hlink).1 hp⟩

/-- Both sides read a link alike if each reads the same of it, or neither reads all. -/
theorem readAlike_iff (hlower : LowersAscii browser.toLower) (hempty : browser.toUpper "" = "")
    (hlink : IsLink link) (hmac : Algorithm → Hmac) : ReadAlike browser nopad hmac link ↔
      serverReading nopad link = webReading browser link ∨
        (¬(serverReading nopad link).Complete ∧ ¬(webReading browser link).Complete) := by
  constructor
  · intro h
    by_cases hweb : (webReading browser link).Complete
    · obtain ⟨web, hweb⟩ := Option.isSome_iff_exists.1 ((web_complete hlower hempty hlink).1 hweb)
      have hserver : (Params.parse nopad link).isSome = true := by
        rw [← h.accepted, hweb]
        rfl
      obtain ⟨server, hserver⟩ := Option.isSome_iff_exists.1 hserver
      obtain ⟨hsecret, halgorithm, hdigits, hperiod⟩ := h.same web server hweb hserver
      rw [(parse_eq hlink).1 hserver, (parseTotp_eq hlower hempty hlink).1 hweb, hsecret, halgorithm, hdigits,
        hperiod]
      exact .inl rfl
    · refine .inr ⟨fun hserver => hweb ?_, hweb⟩
      rw [web_complete hlower hempty hlink, h.accepted]
      exact (server_complete hlink).1 hserver
  · intro h
    have hboth : ∀ web server, parseTotp browser link = some web → Params.parse nopad link = some server →
        web.secret = server.secret ∧ web.algorithm = server.algorithm ∧ web.digits = server.digits ∧
          web.period = server.period := by
      intro web server hweb hserver
      have hreading := (parse_eq hlink).1 hserver
      have hreading' := (parseTotp_eq hlower hempty hlink).1 hweb
      rcases h with hsame | ⟨hnone, -⟩
      · rw [hreading, hreading', Reading.mk.injEq] at hsame
        obtain ⟨hsecret, halgorithm, hdigits, hperiod⟩ := hsame
        exact ⟨(Option.some.inj hsecret).symm, (Option.some.inj halgorithm).symm, (Option.some.inj hdigits).symm,
          (Option.some.inj hperiod).symm⟩
      · exact absurd (Reading.complete_iff.2 ⟨_, _, _, _, hreading⟩) hnone
    refine ⟨?_, hboth, fun web server hweb hserver => ?_⟩
    · rw [Bool.eq_iff_iff, ← web_complete hlower hempty hlink, ← server_complete hlink]
      rcases h with hsame | ⟨hserver, hweb⟩
      · rw [hsame]
      · exact iff_of_false hweb hserver
    · obtain ⟨hsecret, halgorithm, hdigits, hperiod⟩ := hboth web server hweb hserver
      exact totpCode_eq hsecret halgorithm hdigits hperiod

/-- **When both sides read a link alike.** Of a plain link that the browser takes it asks that the secret stands
there unescaped and with all its digits, and the numbers in decimal digits. -/
theorem link_read_alike {decode : String → String} (h : Standard browser decode)
    (hnopad : ∀ s, nopad s = Base32.decode s) (hlink : IsLink link) (hmac : Algorithm → Hmac) :
    (ReadAlike browser nopad hmac link ↔ Alike browser link) ∧
      (Plain link → (ReadAlike browser nopad hmac link ↔ (WebTakes browser link → Exact link))) := by
  have hempty : browser.toUpper "" = "" := h.upper "" (by decide)
  have halike : ReadAlike browser nopad hmac link ↔ Alike browser link := by
    rw [readAlike_iff h.lower hempty hlink hmac, server_takes hnopad, web_takes h.upper, Alike]
    constructor
    · rintro (hsame | hneither)
      · by_cases hserver : ServerTakes link
        · have hweb : WebTakes browser link := by
            rw [← web_takes h.upper, ← hsame, server_takes hnopad]
            exact hserver
          exact .inl ⟨hserver, hweb, (reading_eq_iff hnopad h.upper hserver hweb).1 hsame⟩
        · refine .inr ⟨hserver, fun hweb => hserver ?_⟩
          rw [← server_takes hnopad, hsame, web_takes h.upper]
          exact hweb
      · exact .inr hneither
    · rintro (⟨hserver, hweb, hsame⟩ | hneither)
      · exact .inl ((reading_eq_iff hnopad h.upper hserver hweb).2 hsame)
      · exact .inr hneither
  exact ⟨halike, fun hplain => halike.trans (h.alike_iff hlink hplain)⟩

/-! ## Two links -/

/-- A text with its escaped equals signs and spaces. -/
def unescaped (text : String) : String := .ofList (chars text.toList)
where
  chars : List Char → List Char
    | '%' :: '3' :: 'D' :: s => '=' :: chars s
    | '+' :: s => ' ' :: chars s
    | c :: s => c :: chars s
    | [] => []

theorem unescaped_chars {s : List Char} (h : ∀ c ∈ s, c ≠ '%') :
    unescaped.chars s = s.map fun c => if c = '+' then ' ' else c := by
  fun_induction unescaped.chars s with
  | case1 s ih => exact absurd rfl (h '%' List.mem_cons_self)
  | case2 s ih => rw [ih fun d hd => h d (List.mem_cons_of_mem '+' hd), List.map_cons, if_pos rfl]
  | case3 c s hpercent hplus ih =>
    rw [ih fun d hd => h d (List.mem_cons_of_mem c hd), List.map_cons, if_neg hplus]
  | case4 => rfl

/-- A browser for texts of ASCII characters, of which it has no other escaped. -/
def asciiBrowser : Browser where
  toLower := toAsciiLowercase
  toUpper := toAsciiUppercase
  number text := (parseUnsigned (2 ^ 53) (.ofList (text.toList.dropWhile (· = ' ')))).map fun n : Nat => (n : ℚ)
  searchParams text := some (queryOf unescaped text)

theorem lowersAscii_toAsciiLowercase : LowersAscii toAsciiLowercase := by
  intro a s _
  refine ⟨s.map Char.toLower, ?_⟩
  rw [toAsciiLowercase, String.toList_ofList, String.toList_ofList, List.map_append]

theorem asciiBrowser_number {text : String} (h : IsDecimal text) :
    asciiBrowser.number text = (parseUnsigned (2 ^ 53) text).map fun n : Nat => (n : ℚ) := by
  have hdrop : text.toList.dropWhile (· = ' ') = text.toList := by
    refine List.dropWhile_eq_self_iff.2 fun hl hspace => ?_
    have hdigit := h.2 _ (List.getElem_mem hl)
    rw [of_decide_eq_true hspace] at hdigit
    exact absurd hdigit (by decide)
  dsimp only [asciiBrowser]
  rw [hdrop, String.ofList_toList]

theorem standard_asciiBrowser : Standard asciiBrowser unescaped where
  lower := lowersAscii_toAsciiLowercase
  upper _ _ := rfl
  number text n htext h := by
    rw [asciiBrowser_number htext, h, Option.map_some]
  large text q htext h hq := by
    rw [asciiBrowser_number htext, h] at hq
    cases hq
  spaced text := by
    dsimp only [asciiBrowser]
    rw [String.toList_ofList, List.dropWhile_cons_of_pos (by decide)]
  params _ _ _ := rfl
  decode s h := by
    rw [unescaped, unescaped_chars h, plusToSpace]

def shopLink : String := "otpauth://totp/S?secret=JBSWY3DPEHPK3PXP&digits=+8"

theorem shop_read_alike : ReadAlike asciiBrowser Base32.decode (fun _ _ _ => []) shopLink := by
  have hlink : IsLink shopLink := by decide +kernel
  have hparams : paramsOf (Web.trim shopLink) = [("secret", "JBSWY3DPEHPK3PXP"), ("digits", "+8")] := by
    decide +kernel
  have htrims : Text.trim shopLink = Web.trim shopLink := by decide +kernel
  have hplain : Plain shopLink := by
    refine ⟨htrims, by decide +kernel, ?_, ?_, ?_, ?_⟩
    all_goals rw [hparams]
    all_goals decide
  have htexts : ∀ field, rawTexts shopLink field = ([("secret", "JBSWY3DPEHPK3PXP"), ("digits", "+8")].filter
      fun pair => toAsciiLowercase pair.1 = field).map (·.2) := by
    intro field
    rw [rawTexts_eq hlink, htrims, hparams]
  have hexact : Exact shopLink := by
    refine ⟨?_, ?_, ?_, ?_⟩
    all_goals rw [htexts]
    · intro text htext
      have htext : text ∈ ["JBSWY3DPEHPK3PXP"] := htext
      rw [List.mem_singleton.1 htext]
      exact ⟨by decide, ⟨by decide, by decide⟩⟩
    · intro text htext
      have htext : text ∈ ([] : List String) := htext
      cases htext
    · intro text htext
      have htext : text ∈ ["+8"] := htext
      rw [List.mem_singleton.1 htext]
      exact .inr ⟨"8", by decide, by decide, by decide⟩
    · intro text htext
      have htext : text ∈ ([] : List String) := htext
      cases htext
  exact ((link_read_alike standard_asciiBrowser (fun _ => rfl) hlink fun _ _ _ => []).2 hplain).2 fun _ => hexact

/-- The settings of KeePass with a padded secret. -/
def paddedSettings : List Kdbx.Field := [⟨"TimeOtp-Secret-Base32", "JBSWY3DPEHPK3PXPGE======", true⟩]

/-- Their link. -/
def paddedLink : String := "otpauth://totp/entry?secret=JBSWY3DPEHPK3PXPGE%3D%3D%3D%3D%3D%3D"

/-- The browser has the secret of the padded one, the server refuses the link. -/
theorem padded_refused : Kdbx.takeTotp toAsciiLowercase paddedSettings = (paddedLink, []) ∧
    IsLink paddedLink ∧ Plain paddedLink ∧
    (parseTotp asciiBrowser paddedLink).isSome = true ∧
    Params.parse Base32.decode paddedLink = none ∧
    ∀ hmac, ¬ReadAlike asciiBrowser Base32.decode hmac paddedLink := by
  have htake : Kdbx.takeTotp toAsciiLowercase paddedSettings = (paddedLink, []) := by decide +kernel
  have hplain : Plain paddedLink := by
    have hlink : Kdbx.timeOtp toAsciiLowercase paddedSettings "JBSWY3DPEHPK3PXPGE======" = paddedLink :=
      congrArg Prod.fst htake
    exact hlink ▸ plain_timeOtp paddedSettings _
  have hweb : (parseTotp asciiBrowser paddedLink).isSome = true := by decide +kernel
  have hserver : Params.parse Base32.decode paddedLink = none := by decide +kernel
  refine ⟨htake, by decide +kernel, hplain, hweb, hserver, fun hmac h => ?_⟩
  have haccepted := h.accepted
  rw [hweb, hserver] at haccepted
  cases haccepted

end Web.OneTime
