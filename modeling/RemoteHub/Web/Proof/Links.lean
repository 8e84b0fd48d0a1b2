import RemoteHub.Lib.Answer
import RemoteHub.Lib.Split
import RemoteHub.Web.Totp

/-!
# The texts in links of one-time passwords

A side reads four fields of a link (`Reading`), each from the texts of the parameters of its name: the
server from all of them as they are, in any case, and the last one counts (`parse_eq`); the browser from
the first one of exactly this name, decoded (`parseTotp_eq`). A side reads every field if each text is one
that it asks for (`server_takes`, `web_takes`), and both read the same if their texts say the same
(`reading_eq_iff`).
-/

namespace Web.OneTime

open Totp (Algorithm Hmac Params Base32 lenientBase32 stripPrefixIgnoreCase)
open Text (trim splitOnce split toAsciiLowercase toAsciiUppercase parseUnsigned)

variable {browser : Browser} {nopad : Base32} {link : String}

/-! ## The server's parameters -/

section
variable {α : Type} {read : String → Option α} {a b : α} {values : List String}
  {pairs : List (String × String)}

/-- The texts of a parameter. -/
def valuesOf (key : String) (pairs : List (String × String)) : List String :=
  (pairs.filter (·.1 = key)).map (·.2)

/-- The last of texts that all have to be read. -/
def lastOf (read : String → Option α) (a : α) (values : List String) : Option α :=
  values.foldlM (fun _ value => read value) a

theorem lastOf_cons {value : String} :
    lastOf read a (value :: values) = (read value).bind fun b => lastOf read b values := rfl

/-- A parameter as the loop takes it. -/
def pairOf (pair : String) : String × String :=
  let (key, value) := (splitOnce '=' pair).getD (pair, "")
  (toAsciiLowercase key, value)

theorem valuesOf_cons {pair : String × String} {key : String} : valuesOf key (pair :: pairs) =
    if pair.1 = key then pair.2 :: valuesOf key pairs else valuesOf key pairs := by
  by_cases h : pair.1 = key <;> simp [valuesOf, h]

/-- `value.parse().ok().filter(|d| (6..=8).contains(d))`. -/
def readDigits (value : String) : Option Nat := (parseUnsigned (2 ^ 32 - 1) value).filter fun d => 6 ≤ d ∧ d ≤ 8

def readPeriod (value : String) : Option Nat := (parseUnsigned (2 ^ 64 - 1) value).filter fun p => 1 ≤ p ∧ p ≤ 300

theorem readPair_eq (params : Params) (text : String) : Params.readPair nopad params text =
    if (pairOf text).1 = "secret" then
      (lenientBase32 nopad (pairOf text).2).map fun secret => { params with secret }
    else if (pairOf text).1 = "algorithm" then
      (Algorithm.parse (pairOf text).2).map fun algorithm => { params with algorithm }
    else if (pairOf text).1 = "digits" then (readDigits (pairOf text).2).map fun digits => { params with digits }
    else if (pairOf text).1 = "period" then (readPeriod (pairOf text).2).map fun period => { params with period }
    else some params := by
  have hmap : ∀ {α : Type} (o : Option α) (f : α → Params),
      (do return f (← o) : Option Params) = o.map f := by
    intro α o f
    cases o <;> rfl
  rw [Params.readPair, pairOf]
  generalize (splitOnce '=' text).getD (text, "") = pair
  obtain ⟨key, value⟩ := pair
  dsimp only
  split
  · rename_i h
    rw [if_pos h, hmap]
  · rename_i h
    rw [if_neg (by rw [h]; decide), if_pos h, hmap]
  · rename_i h
    rw [if_neg (by rw [h]; decide), if_neg (by rw [h]; decide), if_pos h, hmap, readDigits]
  · rename_i h
    rw [if_neg (by rw [h]; decide), if_neg (by rw [h]; decide), if_neg (by rw [h]; decide), if_pos h, hmap,
      readPeriod]
  · rename_i hsecret halgorithm hdigits hperiod
    rw [if_neg hsecret, if_neg halgorithm, if_neg hdigits, if_neg hperiod]

/-- The loop reads each field on its own. -/
theorem foldlM_readPair (nopad : Base32) (texts : List String) (params p : Params) :
    texts.foldlM (Params.readPair nopad) params = some p ↔
      lastOf (lenientBase32 nopad) params.secret (valuesOf "secret" (texts.map pairOf)) = some p.secret ∧
      lastOf Algorithm.parse params.algorithm (valuesOf "algorithm" (texts.map pairOf)) = some p.algorithm ∧
      lastOf readDigits params.digits (valuesOf "digits" (texts.map pairOf)) = some p.digits ∧
      lastOf readPeriod params.period (valuesOf "period" (texts.map pairOf)) = some p.period := by
  induction texts generalizing params with
  | nil =>
    obtain ⟨secret, algorithm, digits, period⟩ := params
    obtain ⟨secret', algorithm', digits', period'⟩ := p
    simp [valuesOf, lastOf, pure]
  | cons text texts ih =>
    rw [List.foldlM_cons, List.map_cons, readPair_eq, valuesOf_cons, valuesOf_cons, valuesOf_cons, valuesOf_cons]
    generalize pairOf text = pair
    obtain ⟨key, value⟩ := pair
    have hstep : ∀ {α : Type} (o : Option α) (f : α → Params), ((o.map f >>= fun params =>
        texts.foldlM (Params.readPair nopad) params) = some p) ↔
        ∃ a, o = some a ∧ texts.foldlM (Params.readPair nopad) (f a) = some p := by
      intro α o f
      cases o <;> simp
    have hlast : ∀ {α : Type} (read : String → Option α) (a b : α) (values : List String),
        lastOf read a (value :: values) = some b ↔ ∃ c, read value = some c ∧ lastOf read c values = some b :=
      fun read a b values => Option.bind_eq_some_iff
    dsimp only
    by_cases hsecret : key = "secret"
    · subst hsecret
      rw [if_pos rfl, if_pos rfl, if_neg (by decide), if_neg (by decide), if_neg (by decide), hstep, hlast]
      simp only [ih]
      exact ⟨fun ⟨c, hc, h, hrest⟩ => ⟨⟨c, hc, h⟩, hrest⟩, fun ⟨⟨c, hc, h⟩, hrest⟩ => ⟨c, hc, h, hrest⟩⟩
    by_cases halgorithm : key = "algorithm"
    · subst halgorithm
      rw [if_neg (by decide), if_pos rfl, if_neg (by decide), if_pos rfl, if_neg (by decide), if_neg (by decide),
        hstep, hlast]
      simp only [ih]
      exact ⟨fun ⟨c, hc, hs, h, hrest⟩ => ⟨hs, ⟨c, hc, h⟩, hrest⟩,
        fun ⟨hs, ⟨c, hc, h⟩, hrest⟩ => ⟨c, hc, hs, h, hrest⟩⟩
    by_cases hdigits : key = "digits"
    · subst hdigits
      rw [if_neg (by decide), if_neg (by decide), if_pos rfl, if_neg (by decide), if_neg (by decide), if_pos rfl,
        if_neg (by decide), hstep, hlast]
      simp only [ih]
      exact ⟨fun ⟨c, hc, hs, ha, h, hp⟩ => ⟨hs, ha, ⟨c, hc, h⟩, hp⟩,
        fun ⟨hs, ha, ⟨c, hc, h⟩, hp⟩ => ⟨c, hc, hs, ha, h, hp⟩⟩
    by_cases hperiod : key = "period"
    · subst hperiod
      rw [if_neg (by decide), if_neg (by decide), if_neg (by decide), if_pos rfl, if_neg (by decide),
        if_neg (by decide), if_neg (by decide), if_pos rfl, hstep, hlast]
      simp only [ih]
      exact ⟨fun ⟨c, hc, hs, ha, hd, h⟩ => ⟨hs, ha, hd, c, hc, h⟩,
        fun ⟨hs, ha, hd, c, hc, h⟩ => ⟨c, hc, hs, ha, hd, h⟩⟩
    rw [if_neg hsecret, if_neg halgorithm, if_neg hdigits, if_neg hperiod, if_neg hsecret, if_neg halgorithm,
      if_neg hdigits, if_neg hperiod]
    exact ih params

end

/-! ## Links -/

/-- A text that is a link of a one-time password. -/
def IsLink (link : String) : Prop := stripPrefixIgnoreCase link "otpauth://totp/" ≠ none

instance (link : String) : Decidable (IsLink link) := inferInstanceAs (Decidable (_ ≠ _))

/-- `toLowerCase` of ASCII characters at the start of a text. -/
def LowersAscii (toLower : String → String) : Prop :=
  ∀ a s : List Char, (∀ c ∈ a, c.toNat < 128) →
    ∃ s', (toLower (.ofList (a ++ s))).toList = a.map Char.toLower ++ s'

/-- Texts of ASCII characters are in upper case as the server has them. -/
def UppersAscii (toUpper : String → String) : Prop :=
  ∀ s : String, (∀ c ∈ s.toList, c.toNat < 128) → toUpper s = toAsciiUppercase s

/-- How a link begins. -/
structure Starts (a : List Char) : Prop where
  lower : a.map Char.toLower = "otpauth://totp/".toList
  ascii : ∀ c ∈ a, c.toNat < 128
  head : ∀ c ∈ a.head?, c = 'o' ∨ c = 'O'
  last : ∀ c ∈ a.getLast?, c = '/'

theorem starts_of_lower {a : List Char} (h : a.map Char.toLower = "otpauth://totp/".toList) : Starts a := by
  have hletters : ∀ c ∈ "otpauth://totp/".toList, c.toNat < 128 := by decide
  refine ⟨h, fun c hc => ?_, fun c hc => ?_, fun c hc => ?_⟩
  · have hlow := hletters _ (h ▸ List.mem_map_of_mem hc)
    rcases Text.toLower_cases c with ⟨hsame, -⟩ | ⟨-, hhigh, -⟩
    · rwa [hsame] at hlow
    · omega
  · have hhead := congrArg List.head? h
    rw [List.head?_map, Option.mem_def.1 hc] at hhead
    have hlower : c.toLower = 'o' := Option.some.inj hhead
    rcases Text.toLower_cases c with ⟨hsame, -⟩ | ⟨-, -, hnum⟩
    · exact .inl (hsame.symm.trans hlower)
    · rw [hlower] at hnum
      have hcode : c.toNat = 79 := Nat.add_right_cancel (hnum.symm.trans (by decide : 'o'.toNat = 79 + 32))
      exact .inr (Char.toNat_inj.1 hcode)
  · have hlast := congrArg List.getLast? h
    rw [List.getLast?_map, Option.mem_def.1 hc] at hlast
    have hlower : c.toLower = '/' := Option.some.inj (hlast.trans (by decide))
    exact (Text.toLower_eq_iff (by decide)).1 hlower

/-- A link is still one without what is trimmed off its end. -/
theorem IsLink.trimmed (h : IsLink link) {p : Char → Bool} (ho : p 'o' = false) (hO : p 'O' = false)
    (hslash : p '/' = false) : ∃ a rest, Starts a ∧ Trim.trimBy p link.toList = a ++ rest := by
  have hlower : (link.toList.take 15).map Char.toLower = "otpauth://totp/".toList := by
    by_contra hother
    have hlength : "otpauth://totp/".length = 15 := by decide
    rw [IsLink, stripPrefixIgnoreCase, hlength] at h
    refine h (if_neg fun heq => hother ?_)
    have hchars := congrArg String.toList (of_decide_eq_true heq)
    rw [toAsciiLowercase, toAsciiLowercase, String.toList_ofList, String.toList_ofList, String.toList_ofList]
      at hchars
    exact hchars.trans (by decide)
  have hstarts := starts_of_lower hlower
  have hne : link.toList.take 15 ≠ [] := by
    intro hnil
    rw [hnil] at hlower
    exact absurd hlower (by decide)
  refine ⟨link.toList.take 15, ((link.toList.drop 15).reverse.dropWhile p).reverse, hstarts, ?_⟩
  conv_lhs => rw [← List.take_append_drop 15 link.toList]
  refine Trim.trimBy_append hne (fun c hc => ?_) fun c hc => ?_
  · rcases hstarts.head c hc with rfl | rfl
    · exact ho
    · exact hO
  · rw [hstarts.last c hc]
    exact hslash

/-! ## Fields -/

/-- What a side reads of the fields of a link; none where it cannot. -/
structure Reading where
  secret : Option (List UInt8)
  algorithm : Option Algorithm
  digits : Option Nat
  period : Option ℚ
  deriving DecidableEq

/-- Every field is read. -/
def Reading.Complete (reading : Reading) : Prop :=
  reading.secret.isSome ∧ reading.algorithm.isSome ∧ reading.digits.isSome ∧ reading.period.isSome

/-- The parameters of a link as the server takes them. -/
def rawParams (link : String) : Option (List (String × String)) :=
  (stripPrefixIgnoreCase (Text.trim link) "otpauth://totp/").bind fun rest =>
    (splitOnce '?' rest).map fun parts => (split '&' parts.2).map pairOf

/-- The texts that the server has of a field: those of all parameters of its name in any case. -/
def rawTexts (link field : String) : List String := (rawParams link).elim [] (valuesOf field)

/-- The text that the browser has: of the first parameter of exactly this name, decoded. -/
def webText (browser : Browser) (link field : String) : Option String :=
  (browser.searchParams (Web.trim link)).bind (get · field)

def serverReading (nopad : Base32) (link : String) : Reading where
  secret := (lastOf (lenientBase32 nopad) [] (rawTexts link "secret")).filter (· ≠ [])
  algorithm := lastOf Algorithm.parse .sha1 (rawTexts link "algorithm")
  digits := lastOf readDigits 6 (rawTexts link "digits")
  period := (lastOf readPeriod 30 (rawTexts link "period")).map fun n : Nat => (n : ℚ)

def webReading (browser : Browser) (link : String) : Reading where
  secret := (webText browser link "secret").bind (base32 browser)
  algorithm := algorithmOf (browser.toUpper ((webText browser link "algorithm").getD "SHA1"))
  digits := [6, 7, 8].find? fun d : Nat =>
    (webText browser link "digits").elim (some 6) browser.number = some (d : ℚ)
  period := ((webText browser link "period").elim (some 30) browser.number).filter fun p => 1 ≤ p ∧ p ≤ 300

theorem IsLink.server (h : IsLink link) :
    ∃ rest, stripPrefixIgnoreCase (Text.trim link) "otpauth://totp/" = some rest := by
  obtain ⟨a, rest, hstarts, htrim⟩ := h.trimmed (p := Text.isWhitespace) (by decide) (by decide) (by decide)
  have hlength : a.length = 15 := by
    have hlength := congrArg List.length hstarts.lower
    rw [List.length_map] at hlength
    exact hlength.trans (by decide)
  have hlist : (Text.trim link).toList = a ++ rest := String.toList_ofList.trans htrim
  have hprefix : "otpauth://totp/".length = 15 := by decide
  have htake : (Text.trim link).toList.take "otpauth://totp/".length = a := by
    rw [hlist, hprefix, ← hlength, List.take_left]
  have hsame : Text.eqIgnoreAsciiCase (.ofList a) "otpauth://totp/" = true := by
    refine decide_eq_true ?_
    rw [toAsciiLowercase, String.toList_ofList, hstarts.lower]
    decide
  refine ⟨.ofList ((Text.trim link).toList.drop "otpauth://totp/".length), ?_⟩
  rw [stripPrefixIgnoreCase, htake, hsame, if_pos rfl]

theorem IsLink.web (h : IsLink link) (hlower : LowersAscii browser.toLower) :
    "otpauth://totp/".toList <+: (browser.toLower (Web.trim link)).toList := by
  obtain ⟨a, rest, hstarts, htrim⟩ := h.trimmed (p := Web.isWhitespace) (by decide) (by decide) (by decide)
  obtain ⟨s, hs⟩ := hlower a rest hstarts.ascii
  rw [Web.trim, htrim, hs, hstarts.lower]
  exact List.prefix_append _ _

theorem parse_link {rest : String} (h : stripPrefixIgnoreCase (Text.trim link) "otpauth://totp/" = some rest) :
    Params.parse nopad link = (splitOnce '?' rest).bind fun parts =>
      ((split '&' parts.2).foldlM (Params.readPair nopad) { secret := [] }).bind fun params =>
        if params.secret = [] then none else some params := by
  unfold Params.parse
  dsimp only
  rewrite [h]
  rfl

/-- **What the server makes of a link, field by field.** -/
theorem parse_eq (hlink : IsLink link) {p : Params} : Params.parse nopad link = some p ↔
    serverReading nopad link = ⟨some p.secret, some p.algorithm, some p.digits, some (p.period : ℚ)⟩ := by
  obtain ⟨rest, hrest⟩ := hlink.server
  have hraw : ∀ field, rawTexts link field =
      ((splitOnce '?' rest).map fun parts => (split '&' parts.2).map pairOf).elim [] (valuesOf field) := by
    intro field
    rw [rawTexts, rawParams, hrest, Option.bind_some]
  rw [parse_link hrest, serverReading, hraw, hraw, hraw, hraw]
  cases splitOnce '?' rest with
  | none =>
    refine iff_of_false (fun h => ?_) (fun h => ?_)
    · cases h
    · cases congrArg Reading.secret h
  | some parts =>
    have hperiod : ∀ o : Option Nat,
        o.map (fun n : Nat => (n : ℚ)) = some (p.period : ℚ) ↔ o = some p.period := by
      intro o
      cases o <;> simp
    have hfold := foldlM_readPair nopad (split '&' parts.2) { secret := [] } p
    have hparse : (((split '&' parts.2).foldlM (Params.readPair nopad) { secret := [] }).bind fun params =>
        if params.secret = [] then none else some params) = some p ↔
        (split '&' parts.2).foldlM (Params.readPair nopad) { secret := [] } = some p ∧ p.secret ≠ [] := by
      rw [Option.bind_eq_some_iff]
      constructor
      · rintro ⟨params, hparams, h⟩
        by_cases hempty : params.secret = []
        · rw [if_pos hempty] at h
          cases h
        · rw [if_neg hempty] at h
          cases h
          exact ⟨hparams, hempty⟩
      · rintro ⟨hparams, hsecret⟩
        exact ⟨p, hparams, if_neg hsecret⟩
    rw [Option.bind_some, hparse, hfold, Option.map_some, Option.elim_some, Reading.mk.injEq, hperiod,
      Option.filter_eq_some_iff, decide_eq_true_eq]
    exact ⟨fun ⟨⟨hsecret, hrest⟩, hne⟩ => ⟨⟨hsecret, hne⟩, hrest⟩,
      fun ⟨⟨hsecret, hne⟩, hrest⟩ => ⟨⟨hsecret, hrest⟩, hne⟩⟩

theorem base32_empty (hempty : browser.toUpper "" = "") : base32 browser "" = none := by
  have hclean : String.ofList ("".toList.filter fun c => !(isWhitespace c || c = '=' || c = '-')) = "" := rfl
  rw [base32, hclean, hempty]
  exact if_pos (.inl rfl)

/-- **What the browser makes of a link, field by field.** -/
theorem parseTotp_eq (hlower : LowersAscii browser.toLower) (hempty : browser.toUpper "" = "")
    (hlink : IsLink link) {p : TotpParams} : parseTotp browser link = some p ↔
      webReading browser link = ⟨some p.secret, some p.algorithm, some p.digits, some p.period⟩ := by
  rw [parseTotp, if_pos (hlink.web hlower), webReading]
  unfold webText
  cases browser.searchParams (Web.trim link) with
  | none =>
    refine iff_of_false (fun h => ?_) (fun h => ?_)
    · cases h
    · cases congrArg Reading.secret h
  | some params =>
    obtain ⟨secret, algorithm, digits, period⟩ := p
    have hbase : base32 browser ((get params "secret").getD "") =
        (get params "secret").bind (base32 browser) := by
      cases get params "secret" with
      | none => exact base32_empty hempty
      | some text => rfl
    simp only [Option.bind_some]
    rw [Reading.mk.injEq, ← hbase]
    constructor
    · intro h
      obtain ⟨params', hparams, h⟩ := Option.bind_eq_some_iff.1 h
      cases hparams
      obtain ⟨secret', hsecret, h⟩ := Option.bind_eq_some_iff.1 h
      obtain ⟨algorithm', halgorithm, h⟩ := Option.bind_eq_some_iff.1 h
      obtain ⟨digits', hdigits, h⟩ := Option.bind_eq_some_iff.1 h
      obtain ⟨period', hperiod, h⟩ := Option.bind_eq_some_iff.1 h
      cases h
      exact ⟨hsecret, halgorithm, hdigits, hperiod⟩
    · rintro ⟨hsecret, halgorithm, hdigits, hperiod⟩
      refine Option.bind_eq_some_iff.2 ⟨params, rfl, Option.bind_eq_some_iff.2 ⟨secret, hsecret, ?_⟩⟩
      refine Option.bind_eq_some_iff.2 ⟨algorithm, halgorithm, Option.bind_eq_some_iff.2 ⟨digits, hdigits, ?_⟩⟩
      exact Option.bind_eq_some_iff.2 ⟨period, hperiod, rfl⟩

/-! ## Secrets -/

section
variable {text : String} {bytes : List UInt8}

/-- The base32 digits that the server finds in a text. -/
def serverDigits (text : String) : List Char :=
  (text.toList.filter fun c => !Text.isWhitespace c && c ≠ '-' && c ≠ '=').map Char.toUpper

/-- Those that the browser finds. -/
def webDigits (browser : Browser) (text : String) : List Char :=
  (browser.toUpper (.ofList (text.toList.filter fun c => !(isWhitespace c || c = '=' || c = '-')))).toList

structure IsBase32 (digits : List Char) : Prop where
  some : digits ≠ []
  alphabet : ∀ c ∈ digits, c ∈ Base32.alphabet

/-- At least 80 bits, with no digit more than the bytes need and no bit set beyond them. -/
structure IsWhole (digits : List Char) : Prop where
  strict : Base32.Strict (digits.map Base32.alphabet.idxOf)
  long : 16 ≤ digits.length

/-- The bytes that base32 digits say. -/
def bytesOf (digits : List Char) : List UInt8 := Base32.pack (digits.map Base32.alphabet.idxOf)

theorem lenientBase32_eq_some (hnopad : ∀ s, nopad s = Base32.decode s) :
    lenientBase32 nopad text = some bytes ↔ (IsBase32 (serverDigits text) ∧ IsWhole (serverDigits text)) ∧
      bytes = bytesOf (serverDigits text) := by
  have hclean : lenientBase32 nopad text =
      (Base32.decode (.ofList (serverDigits text))).filter fun bytes => 10 ≤ bytes.length := by
    rw [lenientBase32, hnopad, Text.toAsciiUppercase, String.toList_ofList]
    rfl
  rw [hclean]
  generalize serverDigits text = digits
  have hlength : 10 ≤ (bytesOf digits).length ↔ 16 ≤ digits.length := by
    rw [bytesOf, Base32.length_pack, List.length_map]
    omega
  rw [Base32.decode, String.toList_ofList, Option.filter_eq_some_iff, decide_eq_true_eq]
  constructor
  · rintro ⟨hdecode, hlong⟩
    split at hdecode
    · rename_i h
      cases hdecode
      have hlong := hlength.1 hlong
      refine ⟨⟨⟨fun hnil => ?_, h.1⟩, h.2, hlong⟩, rfl⟩
      rw [hnil] at hlong
      exact absurd hlong (by decide)
    · cases hdecode
  · rintro ⟨⟨h, hwhole⟩, rfl⟩
    exact ⟨if_pos ⟨h.alphabet, hwhole.strict⟩, hlength.2 hwhole.long⟩

theorem base32_eq_some : base32 browser text = some bytes ↔
    IsBase32 (webDigits browser text) ∧ bytes = bytesOf (webDigits browser text) := by
  rw [base32, webDigits]
  generalize browser.toUpper (.ofList (text.toList.filter fun c =>
    !(isWhitespace c || c = '=' || c = '-'))) = clean
  have hnone : (clean = "" ∨ (clean.toList.any fun c => c ∉ Base32.alphabet) = true) ↔
      ¬IsBase32 clean.toList := by
    have hempty : clean = "" ↔ clean.toList = [] := String.toList_eq_nil_iff.symm
    rw [hempty]
    constructor
    · rintro (hnil | hother) h
      · exact h.some hnil
      · obtain ⟨c, hc, hnot⟩ := List.any_eq_true.1 hother
        exact of_decide_eq_true hnot (h.alphabet c hc)
    · intro h
      by_contra hboth
      rw [not_or, Bool.not_eq_true, List.any_eq_false] at hboth
      exact h ⟨hboth.1, fun c hc => by simpa using hboth.2 c hc⟩
  split
  · rename_i hclean
    exact iff_of_false (fun h => by cases h) fun h => hnone.1 hclean h.1
  · rename_i hclean
    have h : IsBase32 clean.toList := not_not.1 (mt hnone.2 hclean)
    have hdigits : ∀ d ∈ clean.toList.map Base32.alphabet.idxOf, d < 32 := by
      intro d hd
      obtain ⟨c, hc, rfl⟩ := List.mem_map.1 hd
      exact Base32.idxOf_lt (h.alphabet c hc)
    rw [Base32.packLoop_eq hdigits, Option.some.injEq]
    exact ⟨fun heq => ⟨h, heq.symm⟩, fun heq => heq.2.symm⟩

theorem isWhitespace_ascii {c : Char} (h : c.toNat < 128) : Text.isWhitespace c = isWhitespace c := by
  rw [Bool.eq_iff_iff, Text.isWhitespace, isWhitespace]
  simp only [Bool.or_eq_true, Bool.and_eq_true, decide_eq_true_eq]
  omega

/-- Both find the same digits in a text of ASCII. -/
theorem digits_ascii (hupper : UppersAscii browser.toUpper) (h : ∀ c ∈ text.toList, c.toNat < 128) :
    webDigits browser text = serverDigits text := by
  have hfilter : text.toList.filter (fun c => !Text.isWhitespace c && c ≠ '-' && c ≠ '=') =
      text.toList.filter fun c => !(isWhitespace c || c = '=' || c = '-') := by
    refine List.filter_congr fun c hc => ?_
    rw [isWhitespace_ascii (h c hc)]
    by_cases hdash : c = '-' <;> by_cases hpad : c = '=' <;> simp [hdash, hpad]
  have hascii : ∀ c ∈ (String.ofList (text.toList.filter fun c =>
      !(isWhitespace c || c = '=' || c = '-'))).toList, c.toNat < 128 := by
    intro c hc
    rw [String.toList_ofList] at hc
    exact h c (List.mem_of_mem_filter hc)
  rw [webDigits, serverDigits, hfilter, hupper _ hascii, toAsciiUppercase, String.toList_ofList,
    String.toList_ofList]

end

/-! ## The texts of a link -/

def algorithmNames : List String := ["SHA1", "SHA256", "SHA512"]

/-- What a text of each field has to be. -/
structure Asks where
  secret : String → Prop
  algorithm : String → Prop
  digits : String → Prop
  period : String → Prop

/-- There is a secret, and every text of a field is one that is asked for. -/
@[mk_iff] structure Takes (asks : Asks) (texts : String → List String) : Prop where
  some : texts "secret" ≠ []
  secret : ∀ text ∈ texts "secret", asks.secret text
  algorithm : ∀ text ∈ texts "algorithm", asks.algorithm text
  digits : ∀ text ∈ texts "digits", asks.digits text
  period : ∀ text ∈ texts "period", asks.period text

def serverAsks : Asks where
  secret text := IsBase32 (serverDigits text) ∧ IsWhole (serverDigits text)
  algorithm text := toAsciiUppercase text ∈ algorithmNames
  digits text := ∃ n, parseUnsigned (2 ^ 32 - 1) text = some n ∧ 6 ≤ n ∧ n ≤ 8
  period text := ∃ n, parseUnsigned (2 ^ 64 - 1) text = some n ∧ 1 ≤ n ∧ n ≤ 300

def webAsks (browser : Browser) : Asks where
  secret text := IsBase32 (webDigits browser text)
  algorithm text := browser.toUpper text ∈ algorithmNames
  digits text := ∃ n ∈ [6, 7, 8], browser.number text = some ((n : Nat) : ℚ)
  period text := ∃ p, browser.number text = some p ∧ 1 ≤ p ∧ p ≤ 300

/-- The server's texts are all ones that it asks for. -/
def ServerTakes (link : String) : Prop := Takes serverAsks (rawTexts link)

def WebTakes (browser : Browser) (link : String) : Prop :=
  Takes (webAsks browser) fun field => (webText browser link field).toList

/-- The server's last texts and the browser's say the same bytes, function and numbers. -/
structure SaySame (browser : Browser) (link : String) : Prop where
  secret : (rawTexts link "secret").getLast?.map (fun text => bytesOf (serverDigits text)) =
    (webText browser link "secret").map fun text => bytesOf (webDigits browser text)
  algorithm : toAsciiUppercase ((rawTexts link "algorithm").getLast?.getD "SHA1") =
    browser.toUpper ((webText browser link "algorithm").getD "SHA1")
  digits : ((rawTexts link "digits").getLast?.elim (some 6) (parseUnsigned (2 ^ 32 - 1))).map
      (fun n : Nat => (n : ℚ)) = (webText browser link "digits").elim (some 6) browser.number
  period : ((rawTexts link "period").getLast?.elim (some 30) (parseUnsigned (2 ^ 64 - 1))).map
      (fun n : Nat => (n : ℚ)) = (webText browser link "period").elim (some 30) browser.number

/-- Each side is asked for something that its texts are not, or both have the texts and they say the same. -/
def Alike (browser : Browser) (link : String) : Prop :=
  (ServerTakes link ∧ WebTakes browser link ∧ SaySame browser link) ∨
    (¬ServerTakes link ∧ ¬WebTakes browser link)

section
variable {α : Type} {read : String → Option α} {a b : α} {values : List String}

theorem lastOf_isSome : (lastOf read a values).isSome ↔ ∀ value ∈ values, (read value).isSome := by
  induction values generalizing a with
  | nil => exact iff_of_true rfl fun value h => absurd h List.not_mem_nil
  | cons value values ih =>
    rw [lastOf_cons, List.forall_mem_cons]
    cases read value with
    | none => simp
    | some b => simpa using ih

/-- Where all can be read, the last one counts. -/
theorem lastOf_eq (h : ∀ value ∈ values, (read value).isSome) :
    lastOf read a values = values.getLast?.elim (some a) read := by
  induction values generalizing a with
  | nil => rfl
  | cons value values ih =>
    obtain ⟨b, hb⟩ := Option.isSome_iff_exists.1 (h value List.mem_cons_self)
    rw [lastOf_cons, hb, Option.bind_some, ih fun v hv => h v (List.mem_cons_of_mem _ hv)]
    cases values with
    | nil => exact hb.symm
    | cons value' values => rw [List.getLast?_cons_cons]; rfl

end

theorem algorithmOf_isSome {name : String} : (algorithmOf name).isSome ↔ name ∈ algorithmNames := by
  unfold algorithmOf algorithmNames
  split <;> simp_all

theorem algorithmOf_inj {name name' : String} (h : name ∈ algorithmNames) (h' : name' ∈ algorithmNames) :
    algorithmOf name = algorithmOf name' ↔ name = name' := by
  simp only [algorithmNames, List.mem_cons, List.not_mem_nil, or_false] at h h'
  rcases h with rfl | rfl | rfl <;> rcases h' with rfl | rfl | rfl <;> decide

theorem parse_algorithm (text : String) : Algorithm.parse text = algorithmOf (toAsciiUppercase text) := by
  unfold Algorithm.parse algorithmOf
  rfl

theorem readDigits_eq_some {text : String} {n : Nat} :
    readDigits text = some n ↔ parseUnsigned (2 ^ 32 - 1) text = some n ∧ 6 ≤ n ∧ n ≤ 8 := by
  rw [readDigits, Option.filter_eq_some_iff, decide_eq_true_eq]

theorem readPeriod_eq_some {text : String} {n : Nat} :
    readPeriod text = some n ↔ parseUnsigned (2 ^ 64 - 1) text = some n ∧ 1 ≤ n ∧ n ≤ 300 := by
  rw [readPeriod, Option.filter_eq_some_iff, decide_eq_true_eq]

theorem readDigits_isSome {text : String} : (readDigits text).isSome ↔ serverAsks.digits text := by
  rw [Option.isSome_iff_exists]
  exact exists_congr fun n => readDigits_eq_some

theorem readPeriod_isSome {text : String} : (readPeriod text).isSome ↔ serverAsks.period text := by
  rw [Option.isSome_iff_exists]
  exact exists_congr fun n => readPeriod_eq_some

theorem lenientBase32_isSome (hnopad : ∀ s, nopad s = Base32.decode s) {text : String} :
    (lenientBase32 nopad text).isSome ↔ serverAsks.secret text := by
  rw [Option.isSome_iff_exists]
  constructor
  · rintro ⟨bytes, h⟩
    exact ((lenientBase32_eq_some hnopad).1 h).1
  · intro h
    exact ⟨_, (lenientBase32_eq_some hnopad).2 ⟨h, rfl⟩⟩

theorem base32_isSome {text : String} : (base32 browser text).isSome ↔ (webAsks browser).secret text := by
  rw [Option.isSome_iff_exists]
  constructor
  · rintro ⟨bytes, h⟩
    exact (base32_eq_some.1 h).1
  · intro h
    exact ⟨_, base32_eq_some.2 ⟨h, rfl⟩⟩

/-! ## What the server reads -/

theorem server_secret (hnopad : ∀ s, nopad s = Base32.decode s)
    (h : ∀ text ∈ rawTexts link "secret", serverAsks.secret text) : (serverReading nopad link).secret =
      (rawTexts link "secret").getLast?.map fun text => bytesOf (serverDigits text) := by
  dsimp only [serverReading]
  rw [lastOf_eq fun text htext => (lenientBase32_isSome hnopad).2 (h text htext)]
  cases hlast : (rawTexts link "secret").getLast? with
  | none => rfl
  | some text =>
    have htext := h text (List.mem_of_getLast? hlast)
    have hne : bytesOf (serverDigits text) ≠ [] := by
      intro hnil
      have hlength := Base32.length_pack ((serverDigits text).map Base32.alphabet.idxOf)
      have hlong := htext.2.long
      rw [bytesOf] at hnil
      rw [hnil, List.length_map, List.length_nil] at hlength
      omega
    rw [Option.elim_some, (lenientBase32_eq_some hnopad).2 ⟨htext, rfl⟩, Option.map_some]
    exact Option.filter_eq_some_iff.2 ⟨rfl, decide_eq_true hne⟩

theorem server_takes (hnopad : ∀ s, nopad s = Base32.decode s) :
    (serverReading nopad link).Complete ↔ ServerTakes link := by
  have halgorithm : (serverReading nopad link).algorithm.isSome ↔
      ∀ text ∈ rawTexts link "algorithm", serverAsks.algorithm text := by
    dsimp only [serverReading]
    rw [lastOf_isSome]
    refine forall₂_congr fun text _ => ?_
    rw [parse_algorithm]
    exact algorithmOf_isSome
  have hdigits : (serverReading nopad link).digits.isSome ↔
      ∀ text ∈ rawTexts link "digits", serverAsks.digits text := by
    dsimp only [serverReading]
    rw [lastOf_isSome]
    exact forall₂_congr fun text _ => readDigits_isSome
  have hperiod : (serverReading nopad link).period.isSome ↔
      ∀ text ∈ rawTexts link "period", serverAsks.period text := by
    dsimp only [serverReading]
    rw [Option.isSome_map, lastOf_isSome]
    exact forall₂_congr fun text _ => readPeriod_isSome
  have hsecret : (serverReading nopad link).secret.isSome ↔
      rawTexts link "secret" ≠ [] ∧ ∀ text ∈ rawTexts link "secret", serverAsks.secret text := by
    constructor
    · intro h
      obtain ⟨bytes, hbytes⟩ := Option.isSome_iff_exists.1 h
      dsimp only [serverReading] at hbytes
      rw [Option.filter_eq_some_iff] at hbytes
      have hall := lastOf_isSome.1 (Option.isSome_iff_exists.2 ⟨bytes, hbytes.1⟩)
      refine ⟨fun hnil => ?_, fun text htext => (lenientBase32_isSome hnopad).1 (hall text htext)⟩
      rw [hnil] at hbytes
      exact of_decide_eq_true hbytes.2 (Option.some.inj hbytes.1).symm
    · rintro ⟨hne, hall⟩
      rw [server_secret hnopad hall, Option.isSome_map, List.getLast?_isSome]
      exact hne
  rw [Reading.Complete, hsecret, halgorithm, hdigits, hperiod]
  exact ⟨fun ⟨⟨hne, hs⟩, ha, hd, hp⟩ => ⟨hne, hs, ha, hd, hp⟩,
    fun h => ⟨⟨h.some, h.secret⟩, h.algorithm, h.digits, h.period⟩⟩

theorem server_algorithm (h : ∀ text ∈ rawTexts link "algorithm", serverAsks.algorithm text) :
    (serverReading nopad link).algorithm =
      algorithmOf (toAsciiUppercase ((rawTexts link "algorithm").getLast?.getD "SHA1")) ∧
    toAsciiUppercase ((rawTexts link "algorithm").getLast?.getD "SHA1") ∈ algorithmNames := by
  have hread : ∀ text ∈ rawTexts link "algorithm", (Algorithm.parse text).isSome := by
    intro text htext
    rw [parse_algorithm]
    exact algorithmOf_isSome.2 (h text htext)
  dsimp only [serverReading]
  rw [lastOf_eq hread]
  cases hlast : (rawTexts link "algorithm").getLast? with
  | none => exact ⟨rfl, by decide⟩
  | some text => exact ⟨parse_algorithm text, h text (List.mem_of_getLast? hlast)⟩

theorem server_digits (h : ∀ text ∈ rawTexts link "digits", serverAsks.digits text) :
    ∃ n, (serverReading nopad link).digits = some n ∧
      (rawTexts link "digits").getLast?.elim (some 6) (parseUnsigned (2 ^ 32 - 1)) = some n := by
  dsimp only [serverReading]
  rw [lastOf_eq fun text htext => readDigits_isSome.2 (h text htext)]
  cases hlast : (rawTexts link "digits").getLast? with
  | none => exact ⟨6, rfl, rfl⟩
  | some text =>
    obtain ⟨n, hn⟩ := h text (List.mem_of_getLast? hlast)
    exact ⟨n, readDigits_eq_some.2 hn, hn.1⟩

theorem server_period (h : ∀ text ∈ rawTexts link "period", serverAsks.period text) :
    (serverReading nopad link).period = ((rawTexts link "period").getLast?.elim (some 30)
      (parseUnsigned (2 ^ 64 - 1))).map fun n : Nat => (n : ℚ) := by
  dsimp only [serverReading]
  rw [lastOf_eq fun text htext => readPeriod_isSome.2 (h text htext)]
  cases hlast : (rawTexts link "period").getLast? with
  | none => rfl
  | some text =>
    obtain ⟨n, hn⟩ := h text (List.mem_of_getLast? hlast)
    rw [Option.elim_some, Option.elim_some, readPeriod_eq_some.2 hn, hn.1]

/-! ## What the browser reads -/

theorem mem_toList_webText {field text : String} :
    text ∈ (webText browser link field).toList ↔ webText browser link field = some text := Option.mem_toList

theorem upper_sha1 (hupper : UppersAscii browser.toUpper) : browser.toUpper "SHA1" = "SHA1" := by
  rw [hupper "SHA1" (by decide)]
  decide

theorem web_takes (hupper : UppersAscii browser.toUpper) :
    (webReading browser link).Complete ↔ WebTakes browser link := by
  have hsecret : (webReading browser link).secret.isSome ↔ (webText browser link "secret").toList ≠ [] ∧
      ∀ text ∈ (webText browser link "secret").toList, (webAsks browser).secret text := by
    dsimp only [webReading]
    cases webText browser link "secret" with
    | none => exact iff_of_false (fun h => by cases h) fun h => h.1 rfl
    | some text => simpa using base32_isSome
  have halgorithm : (webReading browser link).algorithm.isSome ↔
      ∀ text ∈ (webText browser link "algorithm").toList, (webAsks browser).algorithm text := by
    dsimp only [webReading]
    rw [algorithmOf_isSome]
    cases webText browser link "algorithm" with
    | none =>
      rw [Option.getD_none, upper_sha1 hupper]
      exact iff_of_true (by decide) fun text h => absurd h List.not_mem_nil
    | some text => simp [webAsks]
  have hdigits : (webReading browser link).digits.isSome ↔
      ∀ text ∈ (webText browser link "digits").toList, (webAsks browser).digits text := by
    dsimp only [webReading]
    rw [List.find?_isSome]
    simp only [decide_eq_true_eq]
    cases webText browser link "digits" with
    | none => exact iff_of_true ⟨6, by decide, rfl⟩ fun text h => absurd h List.not_mem_nil
    | some text => simp [webAsks]
  have hperiod : (webReading browser link).period.isSome ↔
      ∀ text ∈ (webText browser link "period").toList, (webAsks browser).period text := by
    dsimp only [webReading]
    rw [Option.isSome_iff_exists]
    simp only [Option.filter_eq_some_iff, decide_eq_true_eq]
    cases webText browser link "period" with
    | none => exact iff_of_true ⟨30, rfl, by norm_num, by norm_num⟩ fun text h => absurd h List.not_mem_nil
    | some text => simp [webAsks]
  rw [Reading.Complete, hsecret, halgorithm, hdigits, hperiod]
  exact ⟨fun ⟨⟨hne, hs⟩, ha, hd, hp⟩ => ⟨hne, hs, ha, hd, hp⟩,
    fun h => ⟨⟨h.some, h.secret⟩, h.algorithm, h.digits, h.period⟩⟩

theorem web_secret (h : WebTakes browser link) : (webReading browser link).secret =
    (webText browser link "secret").map fun text => bytesOf (webDigits browser text) := by
  have hall := h.secret
  dsimp only [webReading]
  cases htext : webText browser link "secret" with
  | none => rfl
  | some text => exact base32_eq_some.2 ⟨hall text (mem_toList_webText.2 htext), rfl⟩

theorem web_digits (h : WebTakes browser link) : ∃ n : Nat, (webReading browser link).digits = some n ∧
    (webText browser link "digits").elim (some 6) browser.number = some (n : ℚ) := by
  obtain ⟨n, hn⟩ : ∃ n ∈ [6, 7, 8], (webText browser link "digits").elim (some 6) browser.number =
      some ((n : Nat) : ℚ) := by
    have hall := h.digits
    cases htext : webText browser link "digits" with
    | none => exact ⟨6, by decide, rfl⟩
    | some text => exact hall text (mem_toList_webText.2 htext)
  refine ⟨n, ?_, hn.2⟩
  dsimp only [webReading]
  rw [hn.2]
  have hmem := hn.1
  simp only [List.mem_cons, List.not_mem_nil, or_false] at hmem
  rcases hmem with rfl | rfl | rfl <;> decide

theorem web_period (h : WebTakes browser link) : (webReading browser link).period =
    (webText browser link "period").elim (some 30) browser.number := by
  have hall := h.period
  dsimp only [webReading]
  cases htext : webText browser link "period" with
  | none => rfl
  | some text =>
    obtain ⟨p, hp, hrange⟩ := hall text (mem_toList_webText.2 htext)
    rw [Option.elim_some, hp]
    exact Option.filter_eq_some_iff.2 ⟨rfl, decide_eq_true hrange⟩

theorem web_algorithm (hupper : UppersAscii browser.toUpper) (h : WebTakes browser link) :
    browser.toUpper ((webText browser link "algorithm").getD "SHA1") ∈ algorithmNames := by
  have hall := h.algorithm
  cases htext : webText browser link "algorithm" with
  | none =>
    rw [Option.getD_none, upper_sha1 hupper]
    decide
  | some text => exact hall text (mem_toList_webText.2 htext)

/-- What both read is the same if their texts say the same. -/
theorem reading_eq_iff (hnopad : ∀ s, nopad s = Base32.decode s) (hupper : UppersAscii browser.toUpper)
    (hserver : ServerTakes link) (hweb : WebTakes browser link) :
    serverReading nopad link = webReading browser link ↔ SaySame browser link := by
  obtain ⟨halgorithm, hname⟩ := @server_algorithm nopad link hserver.algorithm
  obtain ⟨n, hdigits, hn⟩ := @server_digits nopad link hserver.digits
  obtain ⟨m, hdigits', hm⟩ := web_digits hweb
  have hreadings : serverReading nopad link = webReading browser link ↔
      (serverReading nopad link).secret = (webReading browser link).secret ∧
      (serverReading nopad link).algorithm = (webReading browser link).algorithm ∧
      (serverReading nopad link).digits = (webReading browser link).digits ∧
      (serverReading nopad link).period = (webReading browser link).period := by
    rw [← Reading.mk.injEq]
  have halgorithms : (serverReading nopad link).algorithm = (webReading browser link).algorithm ↔
      toAsciiUppercase ((rawTexts link "algorithm").getLast?.getD "SHA1") =
        browser.toUpper ((webText browser link "algorithm").getD "SHA1") := by
    rw [halgorithm]
    exact algorithmOf_inj hname (web_algorithm hupper hweb)
  have hnumbers : (serverReading nopad link).digits = (webReading browser link).digits ↔
      ((rawTexts link "digits").getLast?.elim (some 6) (parseUnsigned (2 ^ 32 - 1))).map
        (fun n : Nat => (n : ℚ)) = (webText browser link "digits").elim (some 6) browser.number := by
    rw [hdigits, hdigits', hn, hm, Option.map_some, Option.some.injEq, Option.some.injEq, Nat.cast_inj]
  rw [hreadings, halgorithms, hnumbers, server_secret hnopad hserver.secret, web_secret hweb,
    server_period hserver.period, web_period hweb]
  exact ⟨fun ⟨hs, ha, hd, hp⟩ => ⟨hs, ha, hd, hp⟩, fun h => ⟨h.secret, h.algorithm, h.digits, h.period⟩⟩

end Web.OneTime
