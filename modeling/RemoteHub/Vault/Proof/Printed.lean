import RemoteHub.Vault.Printed

/-!
# Printed keys read back

`toGroups` prints the digits of the key's bits and four zeros (`privateKeyText_eq`). Both readers make
the same bytes of 52 digits (`parsePrinted_eq`, `parsePrivateKey_eq`); the command line wants the last
four bits to be zero, the web client does not look at them. `clean_alike` says when they take the same
digits from a text.
-/

namespace Vault

variable {upper : Char → List Char} {text typed : String} {c : Char} {key : List UInt8}

/-- What `toUpperCase` does to ASCII and white space. -/
structure Uppercases (upper : Char → List Char) : Prop where
  ascii : ∀ c, c.toNat < 128 → upper c = [c.toUpper]
  space : ∀ c, Text.isWhitespace c ∨ Web.isWhitespace c → upper c = [c]

/-- As many digits as a key has. -/
def Full (clean : List Char) : Prop := clean.length = 52 ∧ ∀ c ∈ clean, c ∈ Base32.alphabet

/-- The digits whose last four bits are zero. -/
def EndsInZeros (clean : List Char) : Prop := clean.getLast? ∈ [some 'A', some 'Q']

instance (clean : List Char) : Decidable (Full clean) := inferInstanceAs (Decidable (_ ∧ _))

instance (clean : List Char) : Decidable (EndsInZeros clean) := inferInstanceAs (Decidable (_ ∈ _))

/-- What `parse_printed` decodes. -/
def cleanPrinted (text : String) : List Char :=
  (text.toList.filter fun c => !Text.isWhitespace c && c ≠ '-').map Char.toUpper

/-! ## The two readers -/

theorem endsInZeros_iff {clean : List Char} (h : Full clean) :
    EndsInZeros clean ↔ Base32.number (clean.map Base32.alphabet.idxOf) % 2 ^ 4 = 0 := by
  obtain ⟨hlength, hall⟩ := h
  obtain ⟨init, last, rfl⟩ : ∃ init last, clean = init ++ [last] := by
    refine ⟨clean.dropLast, clean.getLast ?_, (List.dropLast_append_getLast _).symm⟩
    rintro rfl
    cases hlength
  have hlast : last ∈ Base32.alphabet := hall last (by simp)
  have hdigits : ∀ c ∈ Base32.alphabet, (c = 'A' ∨ c = 'Q') ↔ Base32.alphabet.idxOf c % 2 ^ 4 = 0 := by decide
  have hnumber : Base32.number ((init ++ [last]).map Base32.alphabet.idxOf) % 2 ^ 4 =
      Base32.alphabet.idxOf last % 2 ^ 4 := by
    rw [List.map_append, List.map_singleton, Base32.number, Digits.ofDigits_append_singleton]
    omega
  rw [hnumber, ← hdigits last hlast, EndsInZeros, List.getLast?_concat]
  simp

theorem parsePrinted_eq {base32 : String → Option (List UInt8)} (hbase32 : ∀ s, base32 s = Base32.decode s) :
    parsePrinted base32 text =
      if Full (cleanPrinted text) ∧ EndsInZeros (cleanPrinted text) then
        some (Base32.pack ((cleanPrinted text).map Base32.alphabet.idxOf))
      else none := by
  have hstrict : ∀ clean : List Char, (∀ c ∈ clean, c ∈ Base32.alphabet) →
      ((Base32.Strict (clean.map Base32.alphabet.idxOf) ∧
        (Base32.pack (clean.map Base32.alphabet.idxOf)).length = scalarLen) ↔ Full clean ∧ EndsInZeros clean) := by
    intro clean hall
    rw [Base32.Strict, Base32.length_pack, List.length_map, scalarLen]
    constructor
    · rintro ⟨⟨hmod, hzero⟩, hlength⟩
      have hfull : Full clean := by
        refine ⟨?_, hall⟩
        simp only [List.mem_cons, List.not_mem_nil, or_false] at hmod
        omega
      rw [hfull.1] at hzero
      exact ⟨hfull, (endsInZeros_iff hfull).2 hzero⟩
    · rintro ⟨hfull, hends⟩
      rw [hfull.1]
      exact ⟨⟨by decide, (endsInZeros_iff hfull).1 hends⟩, by decide⟩
  have hclean : (Text.toAsciiUppercase (.ofList (text.toList.filter fun c => !Text.isWhitespace c && c ≠ '-'))).toList =
      cleanPrinted text := by
    rw [Text.toAsciiUppercase, String.toList_ofList, String.toList_ofList, cleanPrinted]
  rw [parsePrinted, hbase32, Base32.decode, hclean]
  by_cases hall : ∀ c ∈ cleanPrinted text, c ∈ Base32.alphabet
  · by_cases hread : Full (cleanPrinted text) ∧ EndsInZeros (cleanPrinted text)
    · obtain ⟨hs, hlength⟩ := (hstrict _ hall).2 hread
      rw [if_pos hread, if_pos (And.intro hall hs), Option.filter_some, if_pos (decide_eq_true hlength)]
    · rw [if_neg hread]
      split
      · rename_i hs
        exact Option.filter_eq_none_iff.2 fun bytes hbytes hlength => hread ((hstrict _ hall).1
          ⟨hs.2, by cases hbytes; exact of_decide_eq_true hlength⟩)
      · rfl
  · rw [if_neg fun h => hall h.1, if_neg fun h => hall h.1.2]
    rfl

/-! ### The web client -/

theorem utf16Length_ascii {clean : List Char} (h : ∀ c ∈ clean, c ∈ Base32.alphabet) :
    utf16Length clean = clean.length := by
  have hone : ∀ c ∈ Base32.alphabet, (if c.toNat < 0x10000 then 1 else 2) = 1 := by decide
  rw [utf16Length, List.map_congr_left fun c hc => hone c (h c hc)]
  simp

/-- Of 52 digits the web client makes the bytes that the command line makes. -/
theorem slices_eq_pack {ds : List Nat} (hlength : ds.length = 52) (hds : ∀ d ∈ ds, d < 2 ^ 5) :
    (Digits.slices 8 scalarLen (Digits.bitsOf 5 ds)).map UInt8.ofNat = Base32.pack ds := by
  have hbits : (Digits.bitsOf 5 ds).length = 8 * scalarLen + 4 := by
    rw [Digits.length_bitsOf, hlength]
    rfl
  rw [Digits.slices_eq (fun b hb => Digits.lt_two_of_mem_bitsOf hb) hbits, Digits.ofDigits_bitsOf hds, Base32.pack,
    hlength]
  rfl

theorem parsePrivateKey_eq : parsePrivateKey upper text =
    if Full (cleanGroups upper text) then
      some (Base32.pack ((cleanGroups upper text).map Base32.alphabet.idxOf))
    else none := by
  rw [parsePrivateKey, fromGroups]
  dsimp only
  by_cases hfull : Full (cleanGroups upper text)
  · have hds : ∀ d ∈ (cleanGroups upper text).map Base32.alphabet.idxOf, d < 2 ^ 5 := by
      intro d hd
      obtain ⟨c, hc, rfl⟩ := List.mem_map.1 hd
      exact Base32.idxOf_lt (hfull.2 c hc)
    have hlength : ((cleanGroups upper text).map Base32.alphabet.idxOf).length = 52 := by
      rw [List.length_map, hfull.1]
    rw [if_neg, if_pos hfull, slices_eq_pack hlength hds]
    rw [utf16Length_ascii hfull.2, hfull.1]
    simpa [scalarLen] using hfull.2
  · rw [if_pos, if_neg hfull]
    by_contra hread
    rw [not_or, not_not, List.any_eq_true, not_exists] at hread
    obtain ⟨hlength, hall⟩ := hread
    have hall : ∀ c ∈ cleanGroups upper text, c ∈ Base32.alphabet := fun c hc => by simpa [hc] using hall c
    rw [utf16Length_ascii hall] at hlength
    exact hfull ⟨hlength, hall⟩

/-! ## Texts that both read alike -/

/-- The web client cleans a text character by character. -/
theorem cleanGroups_flatMap (text : String) : cleanGroups upper text =
    text.toList.flatMap fun c => (upper c).filter fun d => !(Web.isWhitespace d || d = '-') := by
  rw [cleanGroups, List.filter_flatMap]

/-- ASCII, or white space for the web client. -/
def Plain (c : Char) : Prop := c.toNat < 128 ∨ Web.isWhitespace c

theorem upper_plain (h : Uppercases upper) (hc : Plain c) :
    ((upper c).filter fun d => !(Web.isWhitespace d || d = '-')) =
      if !Web.isWhitespace c && c ≠ '-' then [c.toUpper] else [] := by
  rcases hc with hascii | hspace
  · have hall : ∀ n < 128, (Web.isWhitespace (Char.ofNat n).toUpper || (Char.ofNat n).toUpper = '-') =
        (Web.isWhitespace (Char.ofNat n) || Char.ofNat n = '-') := by decide
    have hsame := hall c.toNat hascii
    rw [Char.ofNat_toNat] at hsame
    rw [h.ascii c hascii, List.filter_singleton, hsame]
    cases Web.isWhitespace c <;> by_cases hdash : c = '-' <;> simp [hdash]
  · rw [h.space c (.inr hspace), List.filter_singleton, hspace]
    rfl

theorem cleanGroups_plain (h : Uppercases upper) (hplain : ∀ c ∈ text.toList, Plain c) :
    cleanGroups upper text =
      (text.toList.filter fun c => !Web.isWhitespace c && c ≠ '-').map Char.toUpper := by
  rw [cleanGroups_flatMap]
  generalize text.toList = l at hplain
  induction l with
  | nil => rfl
  | cons c l ih =>
    rw [List.forall_mem_cons] at hplain
    rw [List.flatMap_cons, upper_plain h hplain.1, ih hplain.2, List.filter_cons]
    split <;> rfl

/-- ASCII, or white space on both sides. -/
def Common (c : Char) : Prop := c.toNat < 128 ∨ (Web.isWhitespace c ∧ c.toNat ≠ 0xfeff)

theorem isWhitespace_common (hc : Common c) : Text.isWhitespace c = Web.isWhitespace c := by
  rw [Bool.eq_iff_iff]
  rw [Common] at hc
  simp only [Text.isWhitespace, Web.isWhitespace, Bool.or_eq_true, Bool.and_eq_true, decide_eq_true_eq] at hc ⊢
  omega

theorem clean_alike (h : Uppercases upper) (hcommon : ∀ c ∈ text.toList, Common c) :
    cleanGroups upper text = cleanPrinted text := by
  rw [cleanGroups_plain h fun c hc => (hcommon c hc).imp_right And.left, cleanPrinted]
  congr 1
  exact List.filter_congr fun c hc => by rw [isWhitespace_common (hcommon c hc)]

theorem ascii_of_toUpper (h : c.toUpper ∈ Base32.alphabet) : c.toNat < 128 := by
  have hall : ∀ c ∈ Base32.alphabet, c.toNat < 128 := by decide
  delta Char.toUpper at h
  split at h
  · rename_i hlower
    exact Nat.lt_of_le_of_lt (UInt32.le_iff_toNat_le.1 hlower.2) (by decide)
  · exact hall c h

/-- What is left of a text that is a key for the command line. -/
theorem of_full_cleanPrinted (h : Full (cleanPrinted text)) (hc : c ∈ text.toList) :
    c.toNat < 128 ∨ Text.isWhitespace c := by
  by_cases hleft : (!Text.isWhitespace c && c ≠ '-') = true
  · exact .inl (ascii_of_toUpper (h.2 _ (List.mem_map_of_mem (List.mem_filter.2 ⟨hc, hleft⟩))))
  · by_cases hdash : c = '-'
    · exact .inl (hdash ▸ by decide)
    · exact .inr (by simpa [hdash] using hleft)

/-- When both readers answer alike: what the web client takes for a key ends in zeros and has no character
but ASCII and common white space, and what the command line takes has no U+0085. -/
def ReadAlike (upper : Char → List Char) (text : String) : Prop :=
  (Full (cleanGroups upper text) →
    EndsInZeros (cleanGroups upper text) ∧ ∀ c ∈ text.toList, Common c) ∧
  (Full (cleanPrinted text) ∧ EndsInZeros (cleanPrinted text) → Char.ofNat 0x85 ∉ text.toList)

theorem common_of_full (h : Full (cleanPrinted text)) (hnext : Char.ofNat 0x85 ∉ text.toList) :
    ∀ c ∈ text.toList, Common c := by
  intro c hc
  have hne : c.toNat ≠ 0x85 := fun heq => hnext (by rw [← heq, Char.ofNat_toNat]; exact hc)
  have hspace := of_full_cleanPrinted h hc
  rw [Common]
  simp only [Text.isWhitespace, Web.isWhitespace, Bool.or_eq_true, Bool.and_eq_true, decide_eq_true_eq] at hspace ⊢
  omega

theorem not_full_of_next (h : Uppercases upper) (hnext : Char.ofNat 0x85 ∈ text.toList) :
    ¬Full (cleanGroups upper text) := by
  intro hfull
  have hmem : Char.ofNat 0x85 ∈ cleanGroups upper text := by
    rw [cleanGroups_flatMap]
    refine List.mem_flatMap.2 ⟨_, hnext, ?_⟩
    rw [h.space _ (.inl (by decide))]
    decide
  exact absurd (hfull.2 _ hmem) (by decide)

theorem alike_iff (h : Uppercases upper) {base32 : String → Option (List UInt8)}
    (hbase32 : ∀ s, base32 s = Base32.decode s) :
    parsePrivateKey upper text = parsePrinted base32 text ↔ ReadAlike upper text := by
  rw [parsePrivateKey_eq, parsePrinted_eq hbase32]
  constructor
  · intro hsame
    have hnext : Full (cleanPrinted text) ∧ EndsInZeros (cleanPrinted text) → Char.ofNat 0x85 ∉ text.toList := by
      intro hfull hnext
      rw [if_neg (not_full_of_next h hnext), if_pos hfull] at hsame
      cases hsame
    refine ⟨fun hfull => ?_, hnext⟩
    by_cases hread : Full (cleanPrinted text) ∧ EndsInZeros (cleanPrinted text)
    · have hcommon := common_of_full hread.1 (hnext hread)
      exact ⟨clean_alike h hcommon ▸ hread.2, hcommon⟩
    · rw [if_pos hfull, if_neg hread] at hsame
      cases hsame
  · rintro ⟨hweb, hprinted⟩
    by_cases hfull : Full (cleanGroups upper text)
    · obtain ⟨hends, hcommon⟩ := hweb hfull
      have hclean := clean_alike h hcommon
      rw [if_pos hfull, if_pos ⟨hclean ▸ hfull, hclean ▸ hends⟩, hclean]
    · rw [if_neg hfull, if_neg fun hread => ?_]
      exact hfull (clean_alike h (common_of_full hread.1 (hprinted hread)) ▸ hread.1)

/-! ## Printing -/

theorem flatten_matchFours (l : List Char) : (matchFours l).flatten = l := by
  fun_induction matchFours l with
  | case1 => rfl
  | case2 a b c d rest ih => rw [List.flatten_cons, ih]; rfl
  | case3 => exact List.append_nil _

theorem filter_intercalate (groups : List (List Char)) :
    (['-'].intercalate groups).filter (· ≠ '-') = groups.flatten.filter (· ≠ '-') := by
  induction groups with
  | nil => rfl
  | cons g groups ih =>
    cases groups with
    | nil => simp
    | cons g' groups =>
      simp only [List.intercalate_cons_cons, List.filter_append, ih, List.flatten_cons]
      rw [List.append_assoc]
      rfl

/-- The digits of a key's bits and four zeros. -/
def keyDigits (key : List UInt8) : List Nat := Digits.digits 32 52 (Digits.ofDigits 256 (key.map UInt8.toNat) * 2 ^ 4)

def keyLetters (key : List UInt8) : List Char := (keyDigits key).map fun n => Base32.alphabet.getD n 'A'

theorem letter_spec : ∀ n < 32, Base32.alphabet.getD n 'A' ∈ Base32.alphabet ∧
    Base32.alphabet.idxOf (Base32.alphabet.getD n 'A') = n := by decide

theorem lt_of_mem_keyDigits {n : Nat} (h : n ∈ keyDigits key) : n < 32 := Digits.mem_digits_lt (by decide) h

theorem idxOf_keyLetters : (keyLetters key).map Base32.alphabet.idxOf = keyDigits key := by
  rw [keyLetters, List.map_map]
  exact (List.map_congr_left fun n hn => (letter_spec n (lt_of_mem_keyDigits hn)).2).trans (List.map_id _)

theorem full_keyLetters : Full (keyLetters key) := by
  refine ⟨by rw [keyLetters, keyDigits, List.length_map, Digits.length_digits], fun c hc => ?_⟩
  obtain ⟨n, hn, rfl⟩ := List.mem_map.1 hc
  exact (letter_spec n (lt_of_mem_keyDigits hn)).1

section
variable (hkey : key.length = scalarLen)
include hkey

theorem number_keyDigits :
    Base32.number (keyDigits key) = Digits.ofDigits 256 (key.map UInt8.toNat) * 2 ^ 4 := by
  have hlt := Digits.ofDigits_lt (b := 256) (l := key.map UInt8.toNat) fun d hd => by
    obtain ⟨b, -, rfl⟩ := List.mem_map.1 hd
    exact b.toNat_lt
  rw [List.length_map, hkey, scalarLen] at hlt
  refine Digits.ofDigits_digits ?_
  omega

theorem pack_keyDigits : Base32.pack (keyDigits key) = key := by
  have hbytes : Digits.digits 256 32 (Digits.ofDigits 256 (key.map UInt8.toNat)) = key.map UInt8.toNat := by
    have h := Digits.digits_ofDigits (b := 256) (l := key.map UInt8.toNat) fun d hd => by
      obtain ⟨b, -, rfl⟩ := List.mem_map.1 hd
      exact b.toNat_lt
    rwa [List.length_map, hkey] at h
  have hlength : (keyDigits key).length = 52 := Digits.length_digits 32 52 _
  rw [Base32.pack, hlength, number_keyDigits hkey]
  dsimp only [Nat.reduceMul, Nat.reduceDiv, Nat.reduceMod]
  rw [Nat.mul_div_cancel _ (by decide), hbytes, List.map_map]
  exact (List.map_congr_left fun b _ => UInt8.ofNat_toNat).trans (List.map_id _)

theorem endsInZeros_keyLetters : EndsInZeros (keyLetters key) := by
  rw [endsInZeros_iff full_keyLetters, idxOf_keyLetters, number_keyDigits hkey]
  exact Nat.mul_mod_left _ _

/-- What is printed. -/
theorem privateKeyText_eq :
    privateKeyText key = some (.ofList (['-'].intercalate (matchFours (keyLetters key)))) := by
  have hlength : (Digits.bitsOf 8 (key.map UInt8.toNat)).length = 256 := by
    rw [Digits.length_bitsOf, List.length_map, hkey, scalarLen]
  have hbits : (Digits.bitsOf 8 (key.map UInt8.toNat)).rightpad 260 0 =
      Digits.bitsOf 8 (key.map UInt8.toNat) ++ List.replicate 4 0 := by
    rw [List.rightpad, hlength]
  have hslices : Digits.slices 5 52 (Digits.bitsOf 8 (key.map UInt8.toNat) ++ List.replicate 4 0) = keyDigits key := by
    rw [Digits.slices_eq (r := 0), Digits.ofDigits_append, Digits.ofDigits_bitsOf, Nat.pow_zero, Nat.div_one]
    · rfl
    · intro d hd
      obtain ⟨b, -, rfl⟩ := List.mem_map.1 hd
      exact b.toNat_lt
    · intro b hb
      rcases List.mem_append.1 hb with hb | hb
      · exact Digits.lt_two_of_mem_bitsOf hb
      · rw [List.eq_of_mem_replicate hb]
        decide
    · rw [List.length_append, hlength, List.length_replicate]
  have hne : matchFours (keyLetters key) ≠ [] := fun h => by
    have hflat := flatten_matchFours (keyLetters key)
    rw [h] at hflat
    have hfull : Full (keyLetters key) := full_keyLetters
    rw [← hflat] at hfull
    cases hfull.1
  rw [privateKeyText, toGroups, hlength]
  dsimp only [Nat.reduceAdd, Nat.reduceDiv, Nat.reduceMul]
  rw [hbits, hslices]
  split
  · rename_i h
    exact absurd h hne
  · rfl

end

/-- `typed` is `printed` in any case, with other dashes and white space. -/
def Retyped (isWhitespace : Char → Bool) (typed printed : String) : Prop :=
  (typed.toList.filter fun c => !isWhitespace c && c ≠ '-').map Char.toUpper = printed.toList.filter (· ≠ '-')

theorem filter_printed : (String.ofList (['-'].intercalate (matchFours (keyLetters key)))).toList.filter (· ≠ '-') =
    keyLetters key := by
  rw [String.toList_ofList, filter_intercalate, flatten_matchFours, List.filter_eq_self]
  intro c hc
  have hall : ∀ c ∈ Base32.alphabet, decide (c ≠ '-') = true := by decide
  exact hall c (full_keyLetters.2 c hc)

theorem plain_of_retyped (h : (typed.toList.filter fun c => !Web.isWhitespace c && c ≠ '-').map Char.toUpper =
    keyLetters key) : ∀ c ∈ typed.toList, Plain c := by
  intro c hc
  by_cases hleft : (!Web.isWhitespace c && c ≠ '-') = true
  · have hmem : c.toUpper ∈ keyLetters key := h ▸ List.mem_map_of_mem (List.mem_filter.2 ⟨hc, hleft⟩)
    exact .inl (ascii_of_toUpper (full_keyLetters.2 _ hmem))
  · by_cases hdash : c = '-'
    · exact .inl (hdash ▸ by decide)
    · exact .inr (by simpa [hdash] using hleft)

/-! ## Main theorem -/

/-- A printed key is read back on both sides, however it is typed, and a text means the same on both sides
exactly if it is `ReadAlike`. -/
theorem printed_keys_read (h : Uppercases upper) {base32 : String → Option (List UInt8)}
    (hbase32 : ∀ s, base32 s = Base32.decode s) :
    (∀ key : List UInt8, key.length = scalarLen → ∃ printed, privateKeyText key = some printed ∧
      (∀ typed, Retyped Text.isWhitespace typed printed → parsePrinted base32 typed = some key) ∧
      ∀ typed, Retyped Web.isWhitespace typed printed → parsePrivateKey upper typed = some key) ∧
    ∀ text, parsePrivateKey upper text = parsePrinted base32 text ↔ ReadAlike upper text := by
  refine ⟨fun key hkey => ⟨_, privateKeyText_eq hkey, fun typed htyped => ?_, fun typed htyped => ?_⟩,
    fun text => alike_iff h hbase32⟩
  · have hclean : cleanPrinted typed = keyLetters key := htyped.trans filter_printed
    rw [parsePrinted_eq hbase32, hclean, if_pos ⟨full_keyLetters, endsInZeros_keyLetters hkey⟩, idxOf_keyLetters,
      pack_keyDigits hkey]
  · have hclean := htyped.trans filter_printed
    have hgroups : cleanGroups upper typed = keyLetters key := by
      rw [cleanGroups_plain h (plain_of_retyped hclean), hclean]
    rw [parsePrivateKey_eq, hgroups, if_pos full_keyLetters, idxOf_keyLetters, pack_keyDigits hkey]

/-- `toUpperCase` where a text has ASCII only. -/
def asciiUpper (c : Char) : List Char := [c.toUpper]

theorem uppercases_asciiUpper : Uppercases asciiUpper := by
  refine ⟨fun c _ => rfl, fun c hc => congrArg ([·]) ?_⟩
  have hnot : ¬('a'.val ≤ c.val ∧ c.val ≤ 'z'.val) := by
    rintro ⟨hlow, hhigh⟩
    have hlow : 97 ≤ c.toNat := UInt32.le_iff_toNat_le.1 hlow
    have hhigh : c.toNat ≤ 122 := UInt32.le_iff_toNat_le.1 hhigh
    simp only [Text.isWhitespace, Web.isWhitespace, Bool.or_eq_true, Bool.and_eq_true, decide_eq_true_eq] at hc
    omega
  exact dif_neg hnot

/-- The bytes 1 to 32. -/
def testKey : List UInt8 := (List.range' 1 32).map UInt8.ofNat

/-- In lower case with blanks. -/
theorem printed_keys_read_test :
    parsePrinted Base32.decode "aeba gbaf aydq qcik bmga 2dqp cair eeyu culb ogaz dinr yhi6 d4qa" = some testKey ∧
      parsePrivateKey asciiUpper "aeba gbaf aydq qcik bmga 2dqp cair eeyu culb ogaz dinr yhi6 d4qa" = some testKey := by
  obtain ⟨printed, hprinted, hline, hweb⟩ :=
    (printed_keys_read uppercases_asciiUpper fun _ => rfl).1 testKey (by decide)
  have htext : privateKeyText testKey = some "AEBA-GBAF-AYDQ-QCIK-BMGA-2DQP-CAIR-EEYU-CULB-OGAZ-DINR-YHI6-D4QA" := by
    decide +kernel
  cases hprinted.symm.trans htext
  exact ⟨hline _ (by unfold Retyped; decide +kernel), hweb _ (by unfold Retyped; decide +kernel)⟩

/-- The last letter mistyped: a key for the web client, none for the command line. -/
theorem mistyped_read : ¬∀ text, parsePrivateKey asciiUpper text = parsePrinted Base32.decode text := by
  intro h
  have hsame := h "AEBA-GBAF-AYDQ-QCIK-BMGA-2DQP-CAIR-EEYU-CULB-OGAZ-DINR-YHI6-D4QB"
  revert hsame
  decide +kernel

end Vault
