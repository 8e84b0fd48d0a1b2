import RemoteHub.Server.Proof.Versions
import RemoteHub.Web.Proof.Kdbx

/-!
# What a KeePass file changes in an entry

A custom field with a standard name takes the standard field's place and is not read back, a one-time
password and custom fields read as one replace each other, and the year of a day is read back without
leading zeros. A file gives back an entry as it was exactly if none of this happens (`Survives`).

A file whose entries are those that were written may still have changed them into each other: then each
was read from a file several times, and a one-time password stays the same from the third time on
(`turn_settles`).
-/

namespace Web.Kdbx

variable {Instant : Type} {lower : String → String} {calendar : Calendar Instant} {totp name : String}
  {fields : List Field} {item : Item}

/-! ## One-time passwords -/

/-- `toLowerCase`, of which only ASCII is used. -/
def Lowers (lower : String → String) : Prop :=
  ∀ s : String, (∀ c ∈ s.toList, c.toNat < 128) → lower s = Text.toAsciiLowercase s

theorem Lowers.otp (h : Lowers lower) : lower "otp" = "otp" :=
  (h "otp" (by decide)).trans (by decide)

theorem byName_cons {field : Field} : byName lower (field :: fields) name =
    if lower field.name = lower name then field.value else byName lower fields name := by
  by_cases h : lower field.name = lower name <;> simp [byName, h]

theorem byName_none (h : ∀ field ∈ fields, lower field.name ≠ lower name) (field : Field) :
    byName lower (fields ++ [field]) name = if lower field.name = lower name then field.value else "" := by
  induction fields with
  | nil => exact byName_cons
  | cons f fields ih =>
    rw [List.cons_append, byName_cons, if_neg (h f List.mem_cons_self)]
    exact ih fun f hf => h f (List.mem_cons_of_mem _ hf)

/-- The field a one-time password is written to. -/
def otpField (totp : String) : Field := ⟨"otp", totp, true⟩

/-- The custom fields of an entry's record: its own, and its one-time password. -/
def withOtp (totp : String) (fields : List Field) : List Field :=
  if totp = "" then fields
  else if "otp" ∈ fields.map (·.name) then fields.map fun f => if f.name = "otp" then otpField totp else f
  else fields ++ [otpField totp]

theorem mem_withOtp (h : totp ≠ "") : otpField totp ∈ withOtp totp fields := by
  rw [withOtp, if_neg h]
  split
  · rename_i hmem
    obtain ⟨field, hfield, hname⟩ := List.mem_map.1 hmem
    exact List.mem_map.2 ⟨field, hfield, if_pos hname⟩
  · exact List.mem_append_right _ List.mem_cons_self

theorem of_mem_withOtp {field : Field} (h : field ∈ withOtp totp fields) :
    field = otpField totp ∨ field ∈ fields := by
  rw [withOtp] at h
  split at h
  · exact .inr h
  · split at h
    · obtain ⟨f, hf, rfl⟩ := List.mem_map.1 h
      by_cases hname : f.name = "otp"
      · rw [if_pos hname]
        exact .inl rfl
      · rw [if_neg hname]
        exact .inr hf
    · rcases List.mem_append.1 h with h | h
      · exact .inr h
      · exact .inl (List.mem_singleton.1 h)

/-- A one-time password that is where it is written to. -/
theorem withOtp_kept (hnodup : (fields.map (·.name)).Nodup) (h : otpField totp ∈ fields) :
    withOtp totp fields = fields := by
  have hname : "otp" ∈ fields.map (·.name) := List.mem_map.2 ⟨_, h, rfl⟩
  rw [withOtp, if_pos hname]
  split
  · rfl
  · refine (List.map_congr_left fun field hfield => ?_).trans (List.map_id fields)
    by_cases hotp : field.name = "otp"
    · rw [if_pos hotp]
      exact List.inj_on_of_nodup_map hnodup h hfield hotp.symm
    · rw [if_neg hotp]
      rfl

/-- Fields of other names are found as before. -/
theorem byName_withOtp (hlower : Lowers lower) (h : lower name ≠ "otp") :
    byName lower (withOtp totp fields) name = byName lower fields name := by
  have hotp : ∀ totp, lower (otpField totp).name ≠ lower name := by
    intro totp heq
    exact h (heq.symm.trans hlower.otp)
  rw [withOtp]
  split
  · rfl
  · split
    · clear *- hotp
      induction fields with
      | nil => rfl
      | cons field fields ih =>
        rw [List.map_cons, byName_cons, byName_cons, ih]
        by_cases hname : field.name = "otp"
        · have hfield : lower field.name ≠ lower name := by
            rw [hname]
            exact hotp totp
          rw [if_pos hname, if_neg (hotp totp), if_neg hfield]
        · rw [if_neg hname]
    · clear *- hotp
      induction fields with
      | nil => exact byName_cons.trans (if_neg (hotp totp))
      | cons field fields ih => rw [List.cons_append, byName_cons, byName_cons, ih]

theorem timeOtp_withOtp (hlower : Lowers lower) (secret : String) :
    timeOtp lower (withOtp totp fields) secret = timeOtp lower fields secret := by
  have halgorithm : lower "TimeOtp-Algorithm" ≠ "otp" := by
    rw [hlower _ (by decide)]
    decide
  have hdigits : lower "TimeOtp-Length" ≠ "otp" := by
    rw [hlower _ (by decide)]
    decide
  have hperiod : lower "TimeOtp-Period" ≠ "otp" := by
    rw [hlower _ (by decide)]
    decide
  have hquery : timeOtpQuery lower (withOtp totp fields) secret = timeOtpQuery lower fields secret := by
    simp only [timeOtpQuery, setting, byName_withOtp hlower halgorithm, byName_withOtp hlower hdigits,
      byName_withOtp hlower hperiod]
  unfold timeOtp
  rw [hquery]

theorem timeOtp_ne_empty (secret : String) : timeOtp lower fields secret ≠ "" := by
  intro h
  have hempty := (String.append_eq_empty_iff.1 h).1
  exact absurd hempty (by decide)

/-- No `TimeOtp-*` field. -/
def NoTimeOtp (fields : List Field) : Prop :=
  ∀ field ∈ fields, "TimeOtp-".toList.isPrefixOf field.name.toList = false

theorem otp_noTimeOtp : "TimeOtp-".toList.isPrefixOf "otp".toList = false := by decide

theorem noTimeOtp_withOtp (h : NoTimeOtp fields) : NoTimeOtp (withOtp totp fields) := by
  intro field hfield
  rcases of_mem_withOtp hfield with rfl | hfield
  · exact otp_noTimeOtp
  · exact h field hfield

theorem filter_noTimeOtp (h : NoTimeOtp fields) :
    fields.filter (fun f => !"TimeOtp-".toList.isPrefixOf f.name.toList) = fields :=
  List.filter_eq_self.2 fun field hfield => by rw [h field hfield]; rfl

theorem takeTotp_link (h : byName lower fields "otp" ≠ "") : takeTotp lower fields =
    (byName lower fields "otp", fields.filter fun f => lower f.name ≠ "otp") := if_pos h

theorem takeTotp_nothing (h : byName lower fields "otp" = "")
    (hsecret : byName lower fields "TimeOtp-Secret-Base32" = "") : takeTotp lower fields = ("", fields) := by
  rw [takeTotp, if_neg (not_not.2 h), if_pos hsecret]

theorem takeTotp_timeOtp (h : byName lower fields "otp" = "")
    (hsecret : byName lower fields "TimeOtp-Secret-Base32" ≠ "") : takeTotp lower fields =
      (timeOtp lower fields (byName lower fields "TimeOtp-Secret-Base32"),
        fields.filter fun f => !"TimeOtp-".toList.isPrefixOf f.name.toList) := by
  rw [takeTotp, if_neg (not_not.2 h), if_neg hsecret]

/-- A link from `TimeOtp-*` fields that is in the field `otp` already, with a field of the same name and no
value before it. -/
structure OtherLink (lower : String → String) (totp : String) (fields : List Field) : Prop where
  kept : otpField totp ∈ fields
  before : byName lower fields "otp" = ""
  secret : byName lower fields "TimeOtp-Secret-Base32" ≠ ""
  link : timeOtp lower fields (byName lower fields "TimeOtp-Secret-Base32") = totp
  names : NoTimeOtp fields

/-- A one-time password and custom fields that stay what they are. -/
structure Settled (lower : String → String) (totp : String) (fields : List Field) : Prop where
  none : totp = "" → byName lower fields "otp" = "" ∧ byName lower fields "TimeOtp-Secret-Base32" = ""
  some : totp ≠ "" → (∀ field ∈ fields, lower field.name ≠ "otp") ∨ OtherLink lower totp fields

/-- A one-time password next to no field read as one. -/
theorem takeTotp_withOtp (hlower : Lowers lower) (h : totp ≠ "")
    (hnames : ∀ field ∈ fields, lower field.name ≠ "otp") :
    takeTotp lower (withOtp totp fields) = (totp, fields) := by
  have hnew : "otp" ∉ fields.map (·.name) := by
    intro hmem
    obtain ⟨field, hfield, hname⟩ := List.mem_map.1 hmem
    exact hnames field hfield (by rw [hname, hlower.otp])
  have hlink : byName lower (fields ++ [otpField totp]) "otp" = totp :=
    (byName_none (by rwa [hlower.otp]) _).trans (if_pos rfl)
  rw [withOtp, if_neg h, if_neg hnew, takeTotp_link (by rwa [hlink]), hlink, List.filter_append,
    List.filter_eq_self.2 (by simpa using hnames)]
  simp [otpField, hlower.otp]

/-- **What an entry's record gives back of its one-time password and custom fields.** -/
theorem takeTotp_eq (hlower : Lowers lower) (hnodup : (fields.map (·.name)).Nodup) :
    takeTotp lower (withOtp totp fields) = (totp, fields) ↔ Settled lower totp fields := by
  constructor
  · intro h
    refine ⟨fun hnone => ?_, fun hsome => ?_⟩
    · have hsame : withOtp totp fields = fields := if_pos hnone
      rw [hsame, hnone] at h
      by_cases hlink : byName lower fields "otp" = ""
      · refine ⟨hlink, Classical.byContradiction fun hsecret => ?_⟩
        rw [takeTotp_timeOtp hlink hsecret] at h
        exact timeOtp_ne_empty _ (congrArg Prod.fst h)
      · rw [takeTotp_link hlink] at h
        exact absurd (congrArg Prod.fst h) hlink
    · by_cases hlink : byName lower (withOtp totp fields) "otp" = ""
      · by_cases hsecret : byName lower (withOtp totp fields) "TimeOtp-Secret-Base32" = ""
        · rw [takeTotp_nothing hlink hsecret] at h
          exact absurd (congrArg Prod.fst h).symm hsome
        · rw [takeTotp_timeOtp hlink hsecret] at h
          obtain ⟨htotp, hfields⟩ := Prod.mk.inj h
          have hnames : NoTimeOtp fields := by
            intro field hfield
            rw [← hfields] at hfield
            simpa using (List.mem_filter.1 hfield).2
          have hkept : otpField totp ∈ fields := by
            rw [← hfields]
            refine List.mem_filter.2 ⟨mem_withOtp hsome, ?_⟩
            rw [otpField, otp_noTimeOtp]
            rfl
          rw [withOtp_kept hnodup hkept] at hlink hsecret htotp
          exact .inr ⟨hkept, hlink, hsecret, htotp, hnames⟩
      · rw [takeTotp_link hlink] at h
        refine .inl fun field hfield => ?_
        rw [← (Prod.mk.inj h).2] at hfield
        simpa using (List.mem_filter.1 hfield).2
  · intro h
    by_cases hnone : totp = ""
    · have hsame : withOtp totp fields = fields := if_pos hnone
      rw [hsame, takeTotp_nothing (h.none hnone).1 (h.none hnone).2, hnone]
    · rcases h.some hnone with hnames | hother
      · exact takeTotp_withOtp hlower hnone hnames
      · rw [withOtp_kept hnodup hother.kept, takeTotp_timeOtp hother.before hother.secret, hother.link,
          filter_noTimeOtp hother.names]

/-- What a way through a file makes of a one-time password and custom fields. -/
def turn (lower : String → String) (p : String × List Field) : String × List Field :=
  takeTotp lower (withOtp p.1 p.2)

section
variable {p : String × List Field}

theorem turn_link (hlower : Lowers lower) (h : byName lower (withOtp p.1 p.2) "otp" ≠ "") :
    turn lower (turn lower p) = turn lower p := by
  rw [turn, turn, takeTotp_link h]
  exact takeTotp_withOtp hlower h fun field hfield => by simpa using (List.mem_filter.1 hfield).2

theorem turn_nothing (h : byName lower (withOtp p.1 p.2) "otp" = "")
    (hsecret : byName lower (withOtp p.1 p.2) "TimeOtp-Secret-Base32" = "") :
    turn lower (turn lower p) = turn lower p := by
  rw [turn, turn, takeTotp_nothing h hsecret]
  exact takeTotp_nothing h hsecret

/-- Without `TimeOtp-*` fields of exactly this name, all fields stay. -/
theorem turn_timeOtp (h : byName lower (withOtp p.1 p.2) "otp" = "")
    (hsecret : byName lower (withOtp p.1 p.2) "TimeOtp-Secret-Base32" ≠ "") (hnames : NoTimeOtp p.2) :
    turn lower p = (timeOtp lower (withOtp p.1 p.2)
      (byName lower (withOtp p.1 p.2) "TimeOtp-Secret-Base32"), withOtp p.1 p.2) := by
  rw [turn, takeTotp_timeOtp h hsecret, filter_noTimeOtp (noTimeOtp_withOtp hnames)]

/-- From the third way through a file on nothing changes. -/
theorem turn_settles (hlower : Lowers lower)
    (hnodup : ((turn lower (turn lower (turn lower p))).2.map (·.name)).Nodup) :
    turn lower (turn lower (turn lower (turn lower p))) = turn lower (turn lower (turn lower p)) := by
  have hcases : ∀ p, turn lower (turn lower p) = turn lower p ∨
      byName lower (withOtp p.1 p.2) "otp" = "" ∧
        byName lower (withOtp p.1 p.2) "TimeOtp-Secret-Base32" ≠ "" := by
    intro p
    by_cases hlink : byName lower (withOtp p.1 p.2) "otp" = ""
    · by_cases hsecret : byName lower (withOtp p.1 p.2) "TimeOtp-Secret-Base32" = ""
      · exact .inl (turn_nothing hlink hsecret)
      · exact .inr ⟨hlink, hsecret⟩
    · exact .inl (turn_link hlower hlink)
  rcases hcases p with h | ⟨hlink, hsecret⟩
  · rw [h, h, h]
  rcases hcases (turn lower p) with h | ⟨hlink', hsecret'⟩
  · rw [h, h]
  rcases hcases (turn lower (turn lower p)) with h | ⟨hlink'', hsecret''⟩
  · exact h
  -- The third time, the link is made of the same fields as the second time.
  have hnames : NoTimeOtp (turn lower p).2 := by
    intro field hfield
    rw [turn, takeTotp_timeOtp hlink hsecret] at hfield
    simpa using (List.mem_filter.1 hfield).2
  have hsecond := turn_timeOtp hlink' hsecret' hnames
  have hthird := turn_timeOtp hlink'' hsecret'' (by
    rw [hsecond]
    exact noTimeOtp_withOtp hnames)
  have hname : lower "TimeOtp-Secret-Base32" ≠ "otp" := by
    rw [hlower _ (by decide)]
    decide
  have hsame : (turn lower (turn lower (turn lower p))).1 = (turn lower (turn lower p)).1 := by
    rw [hthird, timeOtp_withOtp hlower, byName_withOtp hlower hname, hsecond]
  have hkept : otpField (turn lower (turn lower p)).1 ∈ (turn lower (turn lower (turn lower p))).2 := by
    rw [hthird]
    refine mem_withOtp ?_
    rw [hsecond]
    exact timeOtp_ne_empty _
  conv_lhs => rw [turn]
  rw [hsame, withOtp_kept hnodup hkept]
  conv_rhs => rw [turn]
  rw [hthird]

end

/-! ## Records -/

/-- The standard fields of an entry's record. -/
def standardFields (item : Item) : List (String × Value) :=
  [("Title", .plain item.title), ("UserName", .plain item.username), ("Password", .prot item.password),
    ("URL", .plain item.url), ("Notes", .plain item.notes)]

/-- The custom fields of an entry's record but its one-time password. -/
def fieldPairs (fields : List Field) : List (String × Value) := fields.map fun f => (f.name, f.toValue)

theorem keys_standardFields : (standardFields item).map (·.1) = standard := rfl

theorem keys_fieldPairs : (fieldPairs fields).map (·.1) = fields.map (·.name) := by
  rw [fieldPairs, List.map_map]
  rfl

theorem fieldPairs_back :
    (fieldPairs fields).map (fun e => (⟨e.1, e.2.text, e.2.isProtected⟩ : Field)) = fields := by
  rw [fieldPairs, List.map_map]
  refine (List.map_congr_left fun field _ => ?_).trans (List.map_id fields)
  obtain ⟨name, value, isProtected⟩ := field
  cases isProtected <;> rfl

theorem fieldPairs_withOtp (h : totp ≠ "") : fieldPairs (withOtp totp fields) =
    mapSet (fieldPairs fields) "otp" (.prot totp) := by
  rw [withOtp, if_neg h, mapSet, keys_fieldPairs]
  split
  · rw [fieldPairs, fieldPairs, List.map_map, List.map_map]
    refine List.map_congr_left fun field _ => ?_
    by_cases hname : field.name = "otp"
    · simp [hname, otpField, Field.toValue]
    · simp [hname]
  · rw [fieldPairs, List.map_append]
    rfl

/-- The custom part of a record. -/
theorem filter_standard {l : List (String × Value)} (h : ∀ e ∈ l, e.1 ∉ standard) :
    (standardFields item ++ l).filter (·.1 ∉ standard) = l := by
  have hnone : (standardFields item).filter (·.1 ∉ standard) = [] := by
    rw [List.filter_eq_nil_iff]
    intro e he
    have hmem : e.1 ∈ standard := keys_standardFields ▸ List.mem_map_of_mem he
    simpa using hmem
  rw [List.filter_append, hnone, List.nil_append]
  exact List.filter_eq_self.2 fun e he => decide_eq_true (h e he)

section
variable (hnodup : (item.fields.map (·.name)).Nodup) (hnames : ∀ field ∈ item.fields, field.name ∉ standard)
include hnodup hnames

/-- A record has the standard fields first. -/
theorem entryFields_eq : entryFields item =
    standardFields item ++ fieldPairs (withOtp item.totp item.fields) := by
  have hstandard : mapSet (mapSet (mapSet (mapSet (mapSet [] "Title" (.plain item.title)) "UserName"
      (.plain item.username)) "Password" (.prot item.password)) "URL" (.plain item.url)) "Notes"
      (.plain item.notes) = standardFields item := by
    simp [mapSet, standardFields]
  have hkeys : ((standardFields item).map (·.1) ++ item.fields.map (·.name)).Nodup := by
    rw [keys_standardFields, List.nodup_append]
    refine ⟨by decide, hnodup, fun name hname name' hname' heq => ?_⟩
    obtain ⟨field, hfield, rfl⟩ := List.mem_map.1 hname'
    exact hnames field hfield (heq ▸ hname)
  rw [entryFields, hstandard, foldl_mapSet hkeys, ← fieldPairs]
  by_cases h : item.totp = ""
  · rw [if_neg (not_not.2 h), withOtp, if_pos h]
  · rw [if_pos h, fieldPairs_withOtp h, mapSet_append]
    rw [keys_standardFields]
    decide

theorem mapGet_entryFields (hname : name ∈ standard) :
    mapGet (entryFields item) name = mapGet (standardFields item) name := by
  rw [entryFields_eq hnodup hnames]
  exact mapGet_append (keys_standardFields ▸ hname) _

theorem customFields_writeEntry :
    customFields (writeEntry calendar item) = withOtp item.totp item.fields := by
  have hnew : ∀ e ∈ fieldPairs (withOtp item.totp item.fields), e.1 ∉ standard := by
    intro e he
    obtain ⟨field, hfield, rfl⟩ := List.mem_map.1 he
    rcases of_mem_withOtp hfield with rfl | hfield
    · show "otp" ∉ standard
      decide
    · exact hnames field hfield
  have hfields : (writeEntry calendar item).fields =
      standardFields item ++ fieldPairs (withOtp item.totp item.fields) := entryFields_eq hnodup hnames
  rw [customFields, hfields, filter_standard hnew, fieldPairs_back]

end

/-- The custom fields that are read have no standard names. -/
theorem restored_names {field : Field} (h : field ∈ (restored lower calendar item).fields) :
    field.name ∉ standard := by
  have htake : ∀ fields, (takeTotp lower fields).2 ⊆ fields := by
    intro fields
    unfold takeTotp
    dsimp only
    split
    · exact List.filter_subset_self _
    · split
      · exact fun _ h => h
      · exact List.filter_subset_self _
  have hmem := htake _ h
  obtain ⟨e, he, rfl⟩ := List.mem_map.1 hmem
  exact of_decide_eq_true (List.mem_filter.1 he).2

/-! ## Days -/

/-- A day as `YYYY-MM-DD`. -/
def dayText (year month day : Nat) : String :=
  .ofList (padStart 4 year ++ '-' :: padStart 2 month ++ '-' :: padStart 2 day)

/-- A day of the local calendar. -/
def Calendar.Has (calendar : Calendar Instant) (text : String) : Prop :=
  ∃ year month day, 0 < year ∧ text = dayText year month day ∧
    calendar.localDay (calendar.date (text ++ "T00:00:00")) = (year, month, day)

/-- A day on its way through a file. -/
def Calendar.turn (calendar : Calendar Instant) (text : String) : String :=
  calendar.day (calendar.date (text ++ "T00:00:00"))

/-- A number that is not filled up. -/
theorem padStart_eq {width n : Nat} (h : 0 < n) :
    padStart width n = Nat.toDigits 10 n ↔ (padStart width n).head? ≠ some '0' := by
  unfold padStart
  dsimp only
  cases hfill : width - (Nat.toDigits 10 n).length with
  | zero => exact iff_of_true (List.nil_append _) (Text.head_toDigits_ne_zero h)
  | succ k =>
    rw [List.replicate_succ]
    refine iff_of_false (fun heq => ?_) (fun hhead => hhead rfl)
    have hlength := congrArg List.length heq
    rw [List.length_append, List.length_cons, List.length_replicate] at hlength
    omega

theorem padStart_ne_nil (width n : Nat) : padStart width n ≠ [] :=
  fun h => Nat.toDigits_ne_nil (List.append_eq_nil_iff.1 h).2

section
variable {text : String}

theorem Calendar.Has.ne_empty (h : calendar.Has text) : text ≠ "" := by
  obtain ⟨year, month, day, -, rfl, -⟩ := h
  intro hempty
  have hlist := congrArg String.toList hempty
  rw [dayText, String.toList_ofList, List.append_assoc] at hlist
  exact padStart_ne_nil _ _ (List.append_eq_nil_iff.1 hlist).1

theorem Calendar.Has.turn_eq (h : calendar.Has text) :
    calendar.turn text = text ↔ text.toList.head? ≠ some '0' := by
  obtain ⟨year, month, day, hyear, rfl, hlocal⟩ := h
  have hhead : (dayText year month day).toList.head? = (padStart 4 year).head? := by
    rw [dayText, String.toList_ofList, List.append_assoc, List.head?_append_of_ne_nil _ (padStart_ne_nil _ _)]
  rw [Calendar.turn, Calendar.day, hlocal, hhead, ← padStart_eq hyear, dayText, String.ofList_inj,
    List.append_assoc, List.append_assoc, List.append_left_inj]
  exact eq_comm

/-- A day that was read from a file has no leading zero. -/
theorem Calendar.Has.head_turn (h : calendar.Has text) : (calendar.turn text).toList.head? ≠ some '0' := by
  obtain ⟨year, month, day, hyear, -, hlocal⟩ := h
  rw [Calendar.turn, Calendar.day, hlocal, String.toList_ofList, List.append_assoc,
    List.head?_append_of_ne_nil _ Nat.toDigits_ne_nil]
  exact Text.head_toDigits_ne_zero hyear

end

/-! ## Entries -/

/-- An entry as the vault can hold it. -/
structure Held (calendar : Calendar Instant) (item : Item) : Prop where
  path : Named item.path
  fields : ∃ input checked, Server.checkFields input = .ok checked ∧
    item.fields.map (·.name) = checked.stored.map (·.name)
  files : (item.files.map (·.name)).Nodup
  expires : ∀ day, item.expires = some day → calendar.Has day

/-- An entry that a file gives back as it was. -/
structure Survives (lower : String → String) (item : Item) : Prop where
  names : ∀ field ∈ item.fields, field.name ∉ standard
  year : ∀ day, item.expires = some day → day.toList.head? ≠ some '0'
  totp : Settled lower item.totp item.fields

theorem Held.nodup (h : Held calendar item) : (item.fields.map (·.name)).Nodup := by
  obtain ⟨input, checked, hchecked, hnames⟩ := h.fields
  rw [hnames]
  exact Server.Versions.checkFields_names hchecked

/-- What an entry without standard names becomes. -/
theorem restored_eq (h : Held calendar item) (hnames : ∀ field ∈ item.fields, field.name ∉ standard) :
    restored lower calendar item = { item with
      expires := item.expires.map calendar.turn
      totp := (turn lower (item.totp, item.fields)).1
      fields := (turn lower (item.totp, item.fields)).2 } := by
  have hget : ∀ name ∈ standard,
      mapGet (writeEntry calendar item).fields name = mapGet (standardFields item) name :=
    fun name hname => mapGet_entryFields h.nodup hnames hname
  have hfiles : (writeEntry calendar item).binaries.map (fun e => (⟨e.1, e.2⟩ : File)) = item.files := by
    have hbinaries : (writeEntry calendar item).binaries = item.files.map fun file => (file.name, file.data) :=
      (foldl_mapSet (m := []) h.files).trans (List.nil_append _)
    rw [hbinaries, List.map_map]
    exact List.map_id item.files
  have hexpires : (if (writeEntry calendar item).expires then
      (writeEntry calendar item).expiryTime.map calendar.day else none) = item.expires.map calendar.turn := by
    rw [writeEntry]
    cases hday : item.expires with
    | none => rfl
    | some day => simp [(h.expires day hday).ne_empty, Calendar.turn]
  rw [restored, readEntry, customFields_writeEntry h.nodup hnames, hfiles, hexpires]
  dsimp only
  rw [hget _ (by decide), hget _ (by decide), hget _ (by decide), hget _ (by decide), hget _ (by decide)]
  rfl

theorem restored_eq_self (h : Held calendar item)
    (hnames : ∀ field ∈ item.fields, field.name ∉ standard) : restored lower calendar item = item ↔
      (∀ day, item.expires = some day → day.toList.head? ≠ some '0') ∧
        turn lower (item.totp, item.fields) = (item.totp, item.fields) := by
  have hday : item.expires.map calendar.turn = item.expires ↔
      ∀ day, item.expires = some day → day.toList.head? ≠ some '0' := by
    cases hexpires : item.expires with
    | none => exact iff_of_true rfl fun day hnone => absurd hnone (by simp)
    | some day =>
      rw [Option.map_some, Option.some.injEq, (h.expires day hexpires).turn_eq]
      simp
  rw [restored_eq h hnames, ← hday, Prod.ext_iff]
  obtain ⟨path, title, username, password, url, notes, icon, fields, files, tags, expires, totp⟩ := item
  simp only [Item.mk.injEq, true_and]
  tauto

/-! ## Files -/

section
variable {items : List Item} {web : Sealing Instant} {password name : String}

/-- Entries that are the same ones after a way through a file have each been through it before. -/
theorem survives_of_perm (hlower : Lowers lower) (hheld : ∀ item ∈ items, Held calendar item)
    (hperm : (items.map (restored lower calendar)).Perm items) : ∀ item ∈ items, Survives lower item := by
  have hback : ∀ y ∈ items, ∃ x ∈ items, restored lower calendar x = y :=
    fun y hy => List.mem_map.1 (hperm.mem_iff.2 hy)
  have hnames : ∀ y ∈ items, ∀ field ∈ y.fields, field.name ∉ standard := by
    intro y hy field hfield
    obtain ⟨x, -, rfl⟩ := hback y hy
    exact restored_names hfield
  have hturn : ∀ x y, x ∈ items → restored lower calendar x = y →
      turn lower (x.totp, x.fields) = (y.totp, y.fields) := by
    rintro x y hx rfl
    rw [restored_eq (hheld x hx) (hnames x hx)]
  intro y hy
  refine ⟨hnames y hy, fun day hday => ?_, ?_⟩
  · obtain ⟨x, hx, rfl⟩ := hback y hy
    rw [restored_eq (hheld x hx) (hnames x hx)] at hday
    obtain ⟨text, htext, rfl⟩ := Option.map_eq_some_iff.1 hday
    exact ((hheld x hx).expires text htext).head_turn
  · -- An entry has become this one in three ways through a file.
    obtain ⟨x₂, hx₂, hthird⟩ := hback y hy
    obtain ⟨x₁, hx₁, hsecond⟩ := hback x₂ hx₂
    obtain ⟨x, hx, hfirst⟩ := hback x₁ hx₁
    have hsettled := turn_settles (p := (x.totp, x.fields)) hlower
    rw [hturn x x₁ hx hfirst, hturn x₁ x₂ hx₁ hsecond, hturn x₂ y hx₂ hthird] at hsettled
    exact (takeTotp_eq hlower (hheld y hy).nodup).1 (hsettled (hheld y hy).nodup)

/-- **When a KeePass file gives back the entries.** -/
theorem file_gives_back (hlower : Lowers lower)
    (hload : web.load (web.save (build calendar items name) password) password = some (build calendar items name))
    (hheld : ∀ item ∈ items, Held calendar item) :
    (∃ back, readKdbx lower calendar web (writeKdbx calendar web items password name) password = some back ∧
      back.Perm items) ↔ ∀ item ∈ items, Survives lower item := by
  obtain ⟨back, hback, hperm⟩ := items_perm hload fun item hitem => (hheld item hitem).path
  rw [hback]
  constructor
  · rintro ⟨back', hsome, hsame⟩
    rw [← Option.some.inj hsome] at hsame
    exact survives_of_perm hlower hheld (hperm.symm.trans hsame)
  · intro h
    have hrestored : items.map (restored lower calendar) = items := by
      refine (List.map_congr_left fun item hitem => ?_).trans (List.map_id items)
      have hsurvives := h item hitem
      exact (restored_eq_self (hheld item hitem) hsurvives.names).2
        ⟨hsurvives.year, (takeTotp_eq hlower (hheld item hitem).nodup).2 hsurvives.totp⟩
    exact ⟨back, rfl, hrestored ▸ hperm⟩

end

/-! ## A card with a custom field -/

/-- A calendar of one day. -/
def march : Calendar String where
  date := id
  localDay _ := (2027, 3, 31)

def card (name : String) : Item where
  path := ["Bank", "Cards"]
  title := "Visa"
  username := "me"
  password := "Pass"
  url := "https://bank.example"
  notes := ""
  icon := 66
  fields := [⟨name, "1234", true⟩]
  files := [⟨"card.txt", [1, 2]⟩]
  tags := ["bank", "cards"]
  expires := some "2027-03-31"
  totp := "JBSWY3DPEHPK3PXP"

/-- `kdbxweb` as far as the file of the card goes. -/
def cardWeb (name : String) : Sealing String where
  save _ _ := []
  load _ _ := some (build march [card name] "remotehub")

theorem lowers_ascii : Lowers Text.toAsciiLowercase := fun _ _ => rfl

theorem card_held {name : String} (htrim : Text.trim name = name)
    (h : ¬(name = "" ∨ '\n' ∈ name.toList ∨ (!Server.text name Server.maxName) = true)) : Held march (card name) := by
  refine ⟨?_, ?_, List.nodup_singleton _, fun day hday => ?_⟩
  · show ∀ name ∈ ["Bank", "Cards"], name ≠ "" ∧ ∀ c ∈ name.toList, Text.isControl c = false
    decide
  · refine ⟨[⟨name, false, none⟩], Server.Checked.empty.pushPlain name "", ?_, rfl⟩
    simp only [Server.checkFields, List.foldlM, Server.Checked.push, htrim, Except.refuse, if_neg h]
    rfl
  · rw [← Option.some.inj hday]
    exact ⟨2027, 3, 31, by decide, by decide, rfl⟩

theorem file_gives_back_card : ∃ back, readKdbx Text.toAsciiLowercase march (cardWeb "PIN")
    (writeKdbx march (cardWeb "PIN") [card "PIN"] "Export" "remotehub") "Export" = some back ∧
      back.Perm [card "PIN"] := by
  refine (file_gives_back lowers_ascii rfl fun item hitem => ?_).2 fun item hitem => ?_
  · rw [List.mem_singleton.1 hitem]
    exact card_held (by decide) (by decide)
  · rw [List.mem_singleton.1 hitem]
    refine ⟨?_, fun day hday => ?_, fun hnone => absurd hnone (by decide), fun _ => .inl ?_⟩
    · show ∀ field ∈ [(⟨"PIN", "1234", true⟩ : Field)], field.name ∉ standard
      decide
    · rw [← Option.some.inj hday]
      decide
    · show ∀ field ∈ [(⟨"PIN", "1234", true⟩ : Field)], Text.toAsciiLowercase field.name ≠ "otp"
      decide

/-- A custom field `Title` is gone, and its value is the title. -/
theorem title_lost : Held march (card "Title") ∧ ¬∃ back, readKdbx Text.toAsciiLowercase march (cardWeb "Title")
    (writeKdbx march (cardWeb "Title") [card "Title"] "Export" "remotehub") "Export" = some back ∧
      back.Perm [card "Title"] := by
  refine ⟨card_held (by decide) (by decide), ?_⟩
  rintro ⟨back, hread, hperm⟩
  have hload : (cardWeb "Title").load ((cardWeb "Title").save (build march [card "Title"] "remotehub") "Export")
      "Export" = some (build march [card "Title"] "remotehub") := rfl
  obtain ⟨back', hread', hperm'⟩ := items_perm hload (fun item hitem => by
      rw [List.mem_singleton.1 hitem]
      exact (card_held (by decide) (by decide)).path)
  rw [hread] at hread'
  rw [← Option.some.inj hread'] at hperm'
  have hsame := List.singleton_perm_singleton.1 (hperm'.symm.trans hperm)
  exact absurd (congrArg Item.title hsame) (by decide)

end Web.Kdbx
