import RemoteHub.Totp.Checked

/-!
# Codes are total and exact

Nothing that `Checked` watches for happens with the parameters that `Params.parse` accepts: `truncated`
gives the decimal digits of RFC 4226's truncation of the digest (`truncated_eq`), which HMAC makes long
enough. The total definitions of `Params` are the checked ones.
-/

namespace Totp

variable {base32 : Base32} {hmac : Algorithm → Hmac} {params : Params} {digest secret : List UInt8}
  {digits n : Nat} {text : String}

/-! ## Parameters -/

structure Params.Ranges (params : Params) : Prop where
  digits : 6 ≤ params.digits ∧ params.digits ≤ 8
  period : 1 ≤ params.period ∧ params.period ≤ 300

/-- In the loop over a link's parameters the secret may still be missing. -/
structure Params.Reading (params : Params) : Prop extends Params.Ranges params where
  secret : params.secret = [] ∨ minSecretBytes ≤ params.secret.length

structure Params.Valid (params : Params) : Prop extends Params.Ranges params where
  secret : minSecretBytes ≤ params.secret.length

theorem length_of_lenientBase32 (h : lenientBase32 base32 text = some secret) : minSecretBytes ≤ secret.length :=
  of_decide_eq_true (Option.filter_eq_some_iff.1 h).2

theorem Params.Reading.readPair {params' : Params} (h : params.Reading)
    (hread : params.readPair base32 text = some params') : params'.Reading := by
  unfold Params.readPair at hread
  dsimp only at hread
  split at hread
  · obtain ⟨secret, hsecret, hread⟩ := Option.bind_eq_some_iff.1 hread
    cases hread
    exact { h with secret := .inr (length_of_lenientBase32 hsecret) }
  · obtain ⟨algorithm, -, hread⟩ := Option.bind_eq_some_iff.1 hread
    cases hread
    exact ⟨⟨h.digits, h.period⟩, h.secret⟩
  · obtain ⟨digits, hdigits, hread⟩ := Option.bind_eq_some_iff.1 hread
    cases hread
    exact { h with digits := of_decide_eq_true (Option.filter_eq_some_iff.1 hdigits).2 }
  · obtain ⟨period, hperiod, hread⟩ := Option.bind_eq_some_iff.1 hread
    cases hread
    exact { h with period := of_decide_eq_true (Option.filter_eq_some_iff.1 hperiod).2 }
  · cases hread
    exact h

theorem Params.Reading.foldlM {pairs : List String} {params' : Params} (h : params.Reading)
    (hread : pairs.foldlM (Params.readPair base32) params = some params') : params'.Reading := by
  induction pairs generalizing params with
  | nil =>
    cases hread
    exact h
  | cons pair pairs ih =>
    rw [List.foldlM_cons] at hread
    obtain ⟨next, hnext, hread⟩ := Option.bind_eq_some_iff.1 hread
    exact ih (h.readPair hnext) hread

theorem ranges_default : Params.Ranges { secret } := 
  ⟨(by decide : 6 ≤ 6 ∧ 6 ≤ 8), (by decide : 1 ≤ 30 ∧ 30 ≤ 300)⟩

theorem valid_of_parse (h : Params.parse base32 text = some params) : params.Valid := by
  unfold Params.parse at h
  dsimp only at h
  split at h
  · obtain ⟨secret, hsecret, rfl⟩ := Option.map_eq_some_iff.1 h
    exact ⟨ranges_default, length_of_lenientBase32 hsecret⟩
  · obtain ⟨parts, -, h⟩ := Option.bind_eq_some_iff.1 h
    obtain ⟨read, hread, h⟩ := Option.bind_eq_some_iff.1 h
    have hreading := Params.Reading.foldlM ⟨ranges_default, .inl rfl⟩ hread
    split at h
    · cases h
    · rename_i hsome
      cases h
      exact ⟨hreading.toRanges, hreading.secret.resolve_left hsome⟩

/-! ## Decimal digits -/

/-- `digits` decimal digits. -/
def decimals (digits n : Nat) : List Char := (Digits.digits 10 digits n).map Nat.digitChar

theorem leftpad_repr {w : Nat} (h : n < 10 ^ (w + 1)) :
    n.repr.toList.leftpad (w + 1) '0' = decimals (w + 1) n := by
  rw [Nat.toList_repr, decimals]
  induction w generalizing n with
  | zero =>
    rw [Nat.toDigits_of_lt_base (by omega)]
    simp [List.leftpad, Digits.digits, Nat.mod_eq_of_lt (show n < 10 by omega)]
  | succ w ih =>
    by_cases hlt : n < 10
    · have hzero : (Digits.digits 10 (w + 1) 0).map Nat.digitChar = List.replicate (w + 1) '0' := by
        rw [← ih (Nat.pow_pos (by decide)), Nat.toDigits_zero, List.replicate_succ']
        rfl
      rw [Nat.toDigits_of_lt_base hlt, Digits.digits, Nat.div_eq_of_lt hlt, Nat.mod_eq_of_lt hlt, List.map_append]
      exact congrArg (· ++ [n.digitChar]) hzero.symm
    · have hdiv : n / 10 < 10 ^ (w + 1) := by
        rw [Nat.pow_succ] at h
        omega
      have hdigits := ih hdiv
      rw [List.leftpad] at hdigits
      rw [Nat.toDigits_of_base_le (by decide) (by omega), Digits.digits, List.map_append, ← hdigits, List.leftpad,
        List.length_append, List.length_singleton, Nat.add_sub_add_right, List.append_assoc]
      rfl

/-! ## Truncation -/

theorem fitting_of_lt {bits n : Nat} (h : n < 2 ^ bits) : fitting bits n = some n := if_pos h

/-- `DT` of RFC 4226: 31 bits of the digest, where its last four bits say. -/
def dynamicTruncation (digest : List UInt8) : Nat :=
  fromBeBytes ((digest.drop ((digest.getLastD 0).toNat % 16)).take 4) % 2 ^ 31

/-- The four bytes that count. -/
theorem drop_offset (hdigest : 20 ≤ digest.length) :
    ∃ a b c d rest, digest.drop ((digest.getLastD 0).toNat % 16) = a :: b :: c :: d :: rest := by
  have hlength : 4 ≤ (digest.drop ((digest.getLastD 0).toNat % 16)).length := by
    rw [List.length_drop]
    omega
  generalize digest.drop ((digest.getLastD 0).toNat % 16) = bytes at hlength
  match bytes, hlength with
  | a :: b :: c :: d :: rest, _ => exact ⟨a, b, c, d, rest, rfl⟩

theorem dynamicTruncation_of_drop {a b c d : UInt8} {rest : List UInt8}
    (h : digest.drop ((digest.getLastD 0).toNat % 16) = a :: b :: c :: d :: rest) :
    dynamicTruncation digest = a.toNat % 128 * 2 ^ 24 + b.toNat * 2 ^ 16 + c.toNat * 2 ^ 8 + d.toNat := by
  have := b.toNat_lt
  have := c.toNat_lt
  have := d.toNat_lt
  rw [dynamicTruncation, h]
  simp only [fromBeBytes, Digits.ofDigits, List.take_succ_cons, List.take_zero, List.map_cons, List.map_nil,
    List.foldl_cons, List.foldl_nil]
  omega

/-- The total truncation reads the same four bytes. -/
theorem dynamicTruncation_getD (hdigest : 20 ≤ digest.length) :
    let byte := fun i => (digest.getD ((digest.getLastD 0).toNat % 16 + i) 0).toNat
    byte 0 % 128 * 2 ^ 24 + byte 1 * 2 ^ 16 + byte 2 * 2 ^ 8 + byte 3 = dynamicTruncation digest := by
  obtain ⟨a, b, c, d, rest, hdrop⟩ := drop_offset hdigest
  rw [dynamicTruncation_of_drop hdrop]
  simp only [List.getD_eq_getElem?_getD, ← List.getElem?_drop, hdrop]
  rfl

theorem truncated_eq (hdigest : 20 ≤ digest.length) (hpos : 1 ≤ digits) (hdigits : digits ≤ 9) :
    truncated digest digits = some (.ofList (decimals digits (dynamicTruncation digest % 10 ^ digits))) := by
  obtain ⟨n, rfl⟩ : ∃ n, digits = n + 1 := ⟨digits - 1, by omega⟩
  have hpow : 0 < 10 ^ (n + 1) := Nat.pow_pos (by decide)
  have hfits : fitting 32 (10 ^ (n + 1)) = some (10 ^ (n + 1)) :=
    fitting_of_lt (Nat.lt_of_le_of_lt (Nat.pow_le_pow_right (by decide) hdigits) (by decide))
  have hlast : digest[digest.length - 1]? = some (digest.getLastD 0) := by
    have hne : digest ≠ [] := fun h => by simp [h] at hdigest
    rw [← List.getLast?_eq_getElem?, List.getLastD_eq_getLast?, List.getLast?_eq_some_getLast hne]
    rfl
  have hoffset : ((digest.getLastD 0) &&& 0x0f).toNat = (digest.getLastD 0).toNat % 16 := by
    rw [UInt8.toNat_and]
    exact Nat.and_two_pow_sub_one_eq_mod _ 4
  obtain ⟨a, b, c, d, rest, hdrop⟩ := drop_offset hdigest
  have hbyte : ∀ i, digest[(digest.getLastD 0).toNat % 16 + i]? = (a :: b :: c :: d :: rest)[i]? := by
    intro i
    rw [← hdrop, List.getElem?_drop]
  have hfirst := hbyte 0
  rw [Nat.add_zero] at hfirst
  have hvalue : fromBeBytes [a &&& 0x7f, b, c, d] = dynamicTruncation digest := by
    have ha : (a &&& 0x7f).toNat = a.toNat % 128 := by
      rw [UInt8.toNat_and]
      exact Nat.and_two_pow_sub_one_eq_mod _ 7
    rw [dynamicTruncation_of_drop hdrop]
    simp only [fromBeBytes, Digits.ofDigits, List.map_cons, List.map_nil, List.foldl_cons, List.foldl_nil, ha]
    omega
  have hrem : checkedRem (dynamicTruncation digest) (10 ^ (n + 1)) = some (dynamicTruncation digest % 10 ^ (n + 1)) :=
    if_neg (Nat.pos_iff_ne_zero.1 hpow)
  unfold truncated
  rw [checkedSub, if_pos (by omega)]
  simp only [Option.bind_eq_bind, Option.bind_some, hlast, hoffset, hfirst, hbyte, List.getElem?_cons_zero,
    List.getElem?_cons_succ, hvalue, hfits, hrem, leftpad_repr (Nat.mod_lt _ hpow)]
  rfl

/-! ## Codes -/

/-- The bytes of an HMAC. -/
def Algorithm.size : Algorithm → Nat
  | .sha1 => 20
  | .sha256 => 32
  | .sha512 => 64

/-- A code of RFC 4226: `digits` digits for a counter of eight bytes. -/
def hotp (hmac : Hmac) (secret : List UInt8) (digits counter : Nat) : String :=
  .ofList (decimals digits (dynamicTruncation (hmac secret (toBeBytes counter)) % 10 ^ digits))

section
variable (hsize : ∀ algorithm key message, (hmac algorithm key message).length = algorithm.size)
include hsize

theorem le_size (algorithm : Algorithm) (key message : List UInt8) : 20 ≤ (hmac algorithm key message).length := by
  rw [hsize]
  cases algorithm <;> decide

theorem codeAtChecked_eq (hp : params.Valid) (time : UInt64) : params.codeAtChecked hmac time =
    some (hotp (hmac params.algorithm) params.secret params.digits (time.toNat / params.period),
      params.period - time.toNat % params.period) := by
  obtain ⟨⟨⟨hsix, height⟩, hone, -⟩, -⟩ := hp
  have hperiod : params.period ≠ 0 := by omega
  have hrest : time.toNat % params.period ≤ params.period := Nat.le_of_lt (Nat.mod_lt _ hone)
  have hcode := truncated_eq (le_size hsize params.algorithm params.secret (toBeBytes (time.toNat / params.period)))
    (show 1 ≤ params.digits by omega) (show params.digits ≤ 9 by omega)
  unfold Params.codeAtChecked
  rw [checkedDiv, if_neg hperiod, checkedRem, if_neg hperiod]
  simp only [Option.bind_eq_bind, Option.bind_some, hcode, checkedSub, if_pos hrest]
  rfl

theorem codeChecked_eq (step : Nat) :
    codeChecked (hmac .sha1) secret step = some (hotp (hmac .sha1) secret codeDigits step) :=
  truncated_eq (le_size hsize _ _ _) (by decide) (by decide)

/-- The total definitions. -/
theorem codeAt_eq (hp : params.Valid) (unixSeconds : Nat) : params.codeAt hmac unixSeconds =
    (hotp (hmac params.algorithm) params.secret params.digits (unixSeconds / params.period),
      params.period - unixSeconds % params.period) := by
  obtain ⟨⟨⟨hsix, -⟩, -⟩, -⟩ := hp
  obtain ⟨n, hn⟩ : ∃ n, params.digits = n + 1 := ⟨params.digits - 1, by omega⟩
  have hpow : 0 < 10 ^ (n + 1) := Nat.pow_pos (by decide)
  unfold Params.codeAt
  dsimp only
  rw [dynamicTruncation_getD (le_size hsize _ _ _), hotp, hn, leftpad_repr (Nat.mod_lt _ hpow)]
  rfl

theorem code_eq (step : Nat) : code (hmac .sha1) secret step = hotp (hmac .sha1) secret codeDigits step := by
  unfold code
  dsimp only
  rw [dynamicTruncation_getD (le_size hsize _ _ _), codeDigits, leftpad_repr (Nat.mod_lt _ (by decide))]
  rfl

end

@[simp] theorem length_hotp (hmac : Hmac) (secret : List UInt8) (digits counter : Nat) :
    (hotp hmac secret digits counter).toList.length = digits := by
  rw [hotp, String.toList_ofList, decimals, List.length_map, Digits.length_digits]

theorem isDigit_hotp {hmac : Hmac} {secret : List UInt8} {counter : Nat} {c : Char}
    (h : c ∈ (hotp hmac secret digits counter).toList) : c.isDigit := by
  rw [hotp, String.toList_ofList] at h
  obtain ⟨d, hd, rfl⟩ := List.mem_map.1 h
  have hall : ∀ d < 10, (Nat.digitChar d).isDigit := by decide
  exact hall d (Digits.mem_digits_lt (by decide) hd)

/-! ## Steps -/

/-- Constant-time comparison compares. -/
theorem foldl_or_xor_eq_zero {pairs : List (UInt8 × UInt8)} {acc : UInt8} :
    pairs.foldl (fun acc p => acc ||| (p.1 ^^^ p.2)) acc = 0 ↔ acc = 0 ∧ ∀ p ∈ pairs, p.1 = p.2 := by
  induction pairs generalizing acc with
  | nil => simp
  | cons p pairs ih => rw [List.foldl_cons, ih, UInt8.or_eq_zero_iff, UInt8.xor_eq_zero_iff, List.forall_mem_cons, and_assoc]

theorem sameCode_iff {expected code : String} : sameCode expected code = true ↔ expected = code := by
  have hzip : ∀ a b : List UInt8, a.length = b.length → ((∀ p ∈ a.zip b, p.1 = p.2) ↔ a = b) := by
    intro a b h
    induction a generalizing b with
    | nil => simp [List.length_eq_zero_iff.1 h.symm]
    | cons x a ih =>
      cases b with
      | nil => cases h
      | cons y b => rw [List.zip_cons_cons, List.forall_mem_cons, ih b (Nat.succ.inj h), List.cons_eq_cons]
  rw [sameCode, Bool.and_eq_true, decide_eq_true_eq, decide_eq_true_eq, foldl_or_xor_eq_zero, ← Text.utf8_inj]
  constructor
  · rintro ⟨hlength, -, hall⟩
    exact (hzip _ _ hlength).1 hall
  · intro h
    exact ⟨congrArg List.length h, rfl, (hzip _ _ (congrArg List.length h)).2 h⟩

theorem stepChecked_eq (hsize : ∀ algorithm key message, (hmac algorithm key message).length = algorithm.size)
    (given : String) (time : UInt64) :
    stepChecked (hmac .sha1) secret given time = some (step (hmac .sha1) secret given time.toNat) := by
  have hnext : fitting 64 (time.toNat / period + 1) = some (time.toNat / period + 1) := by
    have htime := time.toNat_lt
    refine fitting_of_lt ?_
    unfold period
    omega
  have hsame : ∀ step, ((codeChecked (hmac .sha1) secret step).bind fun code => pure (sameCode code given)) =
      some (decide (code (hmac .sha1) secret step = given)) := by
    intro step
    rw [codeChecked_eq hsize, code_eq hsize]
    exact congrArg some (Bool.eq_iff_iff.2 (sameCode_iff.trans decide_eq_true_iff.symm))
  rw [stepChecked, checkedDiv, if_neg (by decide), Option.bind_eq_bind, Option.bind_some, hnext,
    Option.bind_eq_bind, Option.bind_some]
  simp only [hsame]
  exact List.findM?_pure (fun step => decide (code (hmac .sha1) secret step = given)) _

theorem step_isSome_iff {hmac : Hmac} {given : String} {unixSeconds : Nat} :
    (step hmac secret given unixSeconds).isSome ↔
      ∃ counter, code hmac secret counter = given ∧
        (counter + 1 = unixSeconds / period ∨ counter = unixSeconds / period ∨ counter = unixSeconds / period + 1) := by
  rw [step, List.find?_isSome]
  generalize unixSeconds / period = now
  constructor
  · rintro ⟨counter, hmem, hcode⟩
    refine ⟨counter, of_decide_eq_true hcode, ?_⟩
    simp only [List.mem_cons, List.not_mem_nil, or_false] at hmem
    omega
  · rintro ⟨counter, hcode, hnear⟩
    refine ⟨counter, ?_, decide_eq_true hcode⟩
    simp only [List.mem_cons, List.not_mem_nil, or_false]
    omega

/-! ## Main theorem -/

/-- What `code_at` gives at a time: a code and how long it holds. -/
structure Params.Exact (hmac : Algorithm → Hmac) (params : Params) (time : UInt64) (code : String)
    (remaining : Nat) : Prop where
  computed : params.codeAtChecked hmac time = some (code, remaining)
  truncation : code = hotp (hmac params.algorithm) params.secret params.digits (time.toNat / params.period)
  length : code.toList.length = params.digits
  decimal : ∀ c ∈ code.toList, c.isDigit
  bounds : 1 ≤ remaining ∧ remaining ≤ params.period
  holds : ∀ later : UInt64, time.toNat ≤ later.toNat → later.toNat ≤ time.toNat + remaining - 1 →
    (params.codeAtChecked hmac later).map (·.1) = some code
  own : params.algorithm = .sha1 → params.digits = codeDigits → params.period = Totp.period →
    codeChecked (hmac .sha1) params.secret (time.toNat / Totp.period) = some code

/-- What `parse` accepts is in range, codes are total and exact, and `step` takes the codes of three
steps. -/
theorem codes_exact (hsize : ∀ algorithm key message, (hmac algorithm key message).length = algorithm.size) :
    (∀ base32 text params, Params.parse base32 text = some params → params.Valid) ∧
    (∀ params : Params, params.Valid → ∀ time, ∃ code remaining, params.Exact hmac time code remaining) ∧
    ∀ secret given (time : UInt64), ∃ answer, stepChecked (hmac .sha1) secret given time = some answer ∧
      (answer.isSome ↔ ∃ counter, codeChecked (hmac .sha1) secret counter = some given ∧
        (counter + 1 = time.toNat / period ∨ counter = time.toNat / period ∨ counter = time.toNat / period + 1)) := by
  refine ⟨fun base32 text params => valid_of_parse, fun params hp time => ?_, fun secret given time => ?_⟩
  · have hpos : 0 < params.period := hp.period.1
    have hmod := Nat.mod_lt time.toNat hpos
    have hdiv := Nat.div_add_mod time.toNat params.period
    refine ⟨_, _, codeAtChecked_eq hsize hp time, rfl, length_hotp _ _ _ _, fun c => isDigit_hotp, by omega,
      fun later hle hlt => ?_, fun halgorithm hdigits hperiod => ?_⟩
    · have hsame : later.toNat / params.period = time.toNat / params.period := by
        rw [Nat.mul_comm] at hdiv
        refine Nat.div_eq_of_lt_le (by omega) ?_
        rw [Nat.succ_mul]
        omega
      rw [codeAtChecked_eq hsize hp later, hsame]
      rfl
    · rw [codeChecked_eq hsize, halgorithm, hdigits, hperiod]
  · refine ⟨_, stepChecked_eq hsize given time, ?_⟩
    rw [step_isSome_iff]
    simp only [codeChecked_eq hsize, code_eq hsize, Option.some.injEq]

/-- HMAC-SHA1 of the second counter, as the test of RFC 6238 has it. -/
def rfcHmac (algorithm : Algorithm) : Hmac := fun key message =>
  if algorithm = .sha1 ∧ key = Text.utf8 "12345678901234567890" ∧ message = [0, 0, 0, 0, 0, 0, 0, 1] then
    [117, 164, 138, 25, 212, 203, 225, 0, 100, 78, 138, 193, 57, 126, 234, 116, 122, 45, 51, 171]
  else List.replicate algorithm.size 0

def rfcParams : Params := { secret := Text.utf8 "12345678901234567890", digits := 8 }

/-- Appendix B: 59 seconds, eight digits. -/
theorem codes_exact_rfc : ∃ remaining, rfcParams.codeAtChecked rfcHmac 59 = some ("94287082", remaining) ∧
    1 ≤ remaining ∧ remaining ≤ 30 := by
  have hsize : ∀ algorithm key message, (rfcHmac algorithm key message).length = algorithm.size := by
    intro algorithm key message
    unfold rfcHmac
    split
    · rename_i h
      rw [h.1]
      rfl
    · exact List.length_replicate
  have hvalid : rfcParams.Valid := ⟨⟨by decide, by decide⟩, by decide⟩
  obtain ⟨code, remaining, hexact⟩ := (codes_exact hsize).2.1 rfcParams hvalid 59
  have hcode : code = "94287082" := hexact.truncation.trans (by decide)
  exact ⟨remaining, hcode ▸ hexact.computed, hexact.bounds⟩

end Totp
